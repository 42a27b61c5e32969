import SecureStream.Proofs.Channel.Calls

/-!
# The passes of a handshake

In each pass the loop of a handshake does what its engine has asked for.  A pass behind which it goes on has run a
task, sent a piece, used up input, or led to another demand (`Shaking.Pass`), but for one: when an engine that asks
for output has none and asks for output once more, it is given the same call again.

* (a) Passes follow each other, each for what the engine has said last that it needs, which the log tells
  (`Shaking.Loop`).  They lead to one of four endings (`Shaking.Ending`).
* (b) A request that drives a handshake makes some calls before the loop (`Shaking.Run`).
* (c) Where an engine has used up nothing, or has no task, the calls end (`Shaking.Run.last_of_isFruitless`,
  `Shaking.Run.taskless`).  Where it has no output, they go on (`Shaking.Run.next_of_isStuck`).
-/

namespace SecureStream

namespace Call

/-- The engine asks for a larger buffer. -/
def isOverflow : Call → Bool
  | wrap _ _ (.ok r) | unwrap _ _ (.ok r) => decide (r.verdict = .overflow)
  | _ => false

/-- The engine is done, has used up nothing, and asks for input once more. -/
def isFruitless : Call → Bool
  | unwrap _ _ (.ok r) => decide (r.verdict = .ok ∧ r.consumed = 0 ∧ (r.demand = .input ∨ r.demand = .none))
  | _ => false

/-- The engine is done with wrapping, or closed. -/
def isDone : Call → Bool
  | wrap _ _ (.ok r) => decide (r.verdict = .ok ∨ r.verdict = .closed)
  | _ => false

/-- The engine is done or closed, has left nothing in the space that it was given, and asks for output once more. -/
def isStuck : Call → Bool
  | wrap _ room (.ok r) =>
    decide ((r.verdict = .ok ∨ r.verdict = .closed) ∧ min r.produced room = 0 ∧ r.demand = .output)
  | _ => false

theorem kind_of_isStuck {call : Call} (h : call.isStuck = true) : call.kind = .wrap := by
  cases call with
  | wrap => rfl
  | _ => cases h

theorem isFruitless_of_kind {call : Call} (h : call.kind ≠ .unwrap) : call.isFruitless = false := by
  cases call with
  | unwrap => exact absurd rfl h
  | _ => rfl

theorem kind_of_isFruitless {call : Call} (h : call.isFruitless = true) : call.kind = .unwrap :=
  Decidable.byContradiction fun hne => by
    rw [isFruitless_of_kind hne] at h
    cases h

theorem not_isOverflow_of_isFruitless {call : Call} (h : call.isFruitless = true) : call.isOverflow = false := by
  cases call with
  | unwrap input room answer =>
    cases answer with
    | error => cases h
    | ok r =>
      have hverdict : r.verdict = .ok := (of_decide_eq_true h).1
      exact decide_eq_false (by rw [hverdict]; decide)
  | _ => cases h

theorem isDone_of_isStuck {call : Call} (h : call.isStuck = true) : call.isDone = true := by
  cases call with
  | wrap input room answer =>
    cases answer with
    | error => cases h
    | ok r => exact decide_eq_true (of_decide_eq_true h).1
  | _ => cases h

theorem not_isStuck_of_not_isDone {call : Call} (h : call.isDone = false) : call.isStuck = false :=
  Bool.eq_false_iff.2 fun hstuck => Bool.false_ne_true (h.symm.trans (isDone_of_isStuck hstuck))

theorem not_isOverflow_of_isDone {call : Call} (h : call.isDone = true) : call.isOverflow = false := by
  cases call with
  | wrap input room answer =>
    cases answer with
    | error => cases h
    | ok r =>
      refine decide_eq_false fun hoverflow => ?_
      rcases of_decide_eq_true h with hverdict | hverdict
      · rw [hverdict] at hoverflow
        cases hoverflow
      · rw [hverdict] at hoverflow
        cases hoverflow
  | _ => cases h

theorem not_isOverflow_of_isStuck {call : Call} (h : call.isStuck = true) : call.isOverflow = false :=
  not_isOverflow_of_isDone (isDone_of_isStuck h)

/-- A call that is made again with a larger buffer. -/
def IsRetry (kind : CallKind) (call : Call) : Prop := call.kind = kind ∧ call.isOverflow = true

theorem IsRetry.not_isFruitless {kind : CallKind} {call : Call} (h : call.IsRetry kind) : call.isFruitless = false :=
  Bool.eq_false_iff.2 fun hfruitless => Bool.false_ne_true ((not_isOverflow_of_isFruitless hfruitless).symm.trans h.2)

theorem IsRetry.not_isDone {kind : CallKind} {call : Call} (h : call.IsRetry kind) : call.isDone = false :=
  Bool.eq_false_iff.2 fun hdone => Bool.false_ne_true ((not_isOverflow_of_isDone hdone).symm.trans h.2)

theorem IsRetry.not_isStuck {kind : CallKind} {call : Call} (h : call.IsRetry kind) : call.isStuck = false :=
  not_isStuck_of_not_isDone h.not_isDone

/-- A call that is no retry stands behind the retries. -/
theorem split_retries {kind : CallKind} {retries last before after : List Call} {call : Call}
    (hretries : ∀ call ∈ retries, call.IsRetry kind) (hcall : call.isOverflow = false)
    (hsplit : retries ++ last = before ++ call :: after) : ∃ inner, last = inner ++ call :: after := by
  rcases split_append hsplit with ⟨rest, rfl, -⟩ | ⟨inner, -, hlast⟩
  · have hretry := (hretries call (List.mem_append_right _ List.mem_cons_self)).2
    rw [hcall] at hretry
    cases hretry
  · exact ⟨inner, hlast⟩

theorem eq_of_split_singleton {last call : Call} {before after : List Call} (h : [last] = before ++ call :: after) :
    last = call ∧ after = [] := by
  rcases List.append_eq_singleton_iff.1 h.symm with ⟨-, heq⟩ | ⟨-, ⟨⟩⟩
  obtain ⟨rfl, rfl⟩ := List.cons.inj heq
  exact ⟨rfl, rfl⟩

/-- The calls by which so many tasks are run. -/
def tasks : Nat → List Call
  | 0 => [.takeTask false]
  | n + 1 => .takeTask true :: .runTask :: tasks n

theorem kind_of_tasks {n : Nat} : ∀ call ∈ tasks n, call.kind ∈ [CallKind.takeTask, .runTask] := by
  induction n with
  | zero => exact List.forall_mem_singleton.2 (List.mem_cons_self ..)
  | succ n ih =>
    have hrun : CallKind.runTask ∈ [CallKind.takeTask, .runTask] := by decide
    exact List.forall_mem_cons.2 ⟨List.mem_cons_self .., List.forall_mem_cons.2 ⟨hrun, ih⟩⟩

/-- That there is no further task is found last, right behind the last task that is run. -/
theorem eq_of_tasks_split {n : Nat} {before after : List Call}
    (h : tasks n = before ++ .takeTask false :: after) :
    after = [] ∧ ((n = 0 ∧ before = []) ∨ before.getLast? = some .runTask) := by
  induction n generalizing before with
  | zero =>
    rcases List.append_eq_singleton_iff.1 h.symm with ⟨rfl, hlast⟩ | ⟨-, ⟨⟩⟩
    exact ⟨(List.cons.inj hlast).2, .inl ⟨rfl, rfl⟩⟩
  | succ n ih =>
    -- the first two calls are none that find no task
    rcases before with _ | ⟨first, _ | ⟨second, before⟩⟩
    · cases h
    · cases h
    · obtain ⟨-, htail⟩ := List.cons.inj h
      obtain ⟨rfl, hrest⟩ := List.cons.inj htail
      obtain ⟨hafter, ⟨-, rfl⟩ | hlast⟩ := ih hrest
      · exact ⟨hafter, .inr rfl⟩
      · exact ⟨hafter, .inr (by rw [List.getLast?_cons_cons, List.getLast?_cons, hlast]; rfl)⟩

end Call

/-- What the engine has said last that it needs, when these calls have been made. -/
def Scene.saidBy {E S : Type} [Engine E] [Session S] (make : EngineMaker E) (runner : Runner) (x : Scene E S)
    (calls : List Call) : Option Demand := (x.replay make runner calls).said

namespace Shaking

open Call

/-- The calls of one pass for a demand behind which the loop goes on with the next. -/
inductive Pass : Demand → List Call → Demand → Prop where
  /-- Tasks have been run. -/
  | ran {next : Demand} (n : Nat) : Pass .task (tasks (n + 1)) next
  /-- There is no task, and none is asked for any more. -/
  | spared {next : Demand} (hchanged : next ≠ .task) : Pass .task (tasks 0) next
  /-- A piece has been sent. -/
  | sent {retries : List Call} {room : Nat} {r : Reply} {piece : Bytes}
    (hretries : ∀ call ∈ retries, call.IsRetry .wrap) (hverdict : r.verdict = .ok ∨ r.verdict = .closed)
    (hpiece : piece ≠ []) : Pass .output (retries ++ [.wrap [] room (.ok r), .enqueue piece]) r.demand
  /-- There is no output, and none is asked for any more. -/
  | silent {retries : List Call} {room : Nat} {r : Reply} (hretries : ∀ call ∈ retries, call.IsRetry .wrap)
    (hverdict : r.verdict = .ok ∨ r.verdict = .closed) (hnothing : min r.produced room = 0)
    (hchanged : r.demand ≠ .output) : Pass .output (retries ++ [.wrap [] room (.ok r)]) r.demand
  /-- There is no output, and output is asked for once more: nothing has changed. -/
  | stuck {retries : List Call} {room : Nat} {r : Reply} (hretries : ∀ call ∈ retries, call.IsRetry .wrap)
    (hverdict : r.verdict = .ok ∨ r.verdict = .closed) (hnothing : min r.produced room = 0)
    (hsame : r.demand = .output) : Pass .output (retries ++ [.wrap [] room (.ok r)]) r.demand
  /-- Input has been used up, or something else is asked for. -/
  | opened {demand : Demand} {retries : List Call} {offered : Bytes} {room : Nat} {r : Reply}
    (hdemand : demand = .input ∨ demand = .none) (hretries : ∀ call ∈ retries, call.IsRetry .unwrap)
    (hverdict : r.verdict = .ok) (hprogress : ¬ (r.consumed = 0 ∧ (r.demand = .input ∨ r.demand = .none))) :
    Pass demand (retries ++ [.unwrap offered room (.ok r)]) r.demand

/-- The calls behind which the loop ends. -/
inductive Ending {α : Type} (said : List Call → Option Demand) (before : List Call) :
    List Call → Except ChannelError α → Prop where
  | secured {result : Except ChannelError α} (hsaid : said before = some .finished) :
    Ending said before [.moveTo .secured] result
  | taskless {result : Except ChannelError α} (hsaid : said before = some .task)
    (hstill : said (before ++ tasks 0) = some .task) (hresult : result = .error (.noProgress .task)) :
    Ending said before (tasks 0) result
  | unsent {calls : List Call} {e : ChannelError} {result : Except ChannelError α}
    (hsaid : said before = some .output) (hcalls : ∀ call ∈ calls, call.kind = .wrap ∧ call.isStuck = false)
    (hnone : calls = [] → ∃ b, e = .buffer b) (hresult : result = .error e) : Ending said before calls result
  | unopened {retries : List Call} {last : Option Call} {result : Except ChannelError α}
    (hsaid : said before = some .input ∨ said before = some .none)
    (hretries : ∀ call ∈ retries, call.IsRetry .unwrap) (hkind : ∀ call ∈ last, call.kind = .unwrap)
    (hlast : ∀ call ∈ last, call.isFruitless = true → result = .error (.noProgress .unwrap)) :
    Ending said before (retries ++ last.toList) result

variable {α : Type} {said : List Call → Option Demand} {before calls : List Call} {demand next : Demand}
  {result : Except ChannelError α}

/-- A pass is never behind a fruitless call. -/
theorem Pass.not_isFruitless (h : Pass demand calls next) : ∀ call ∈ calls, call.isFruitless = false := by
  have hkinds {kinds : List CallKind} {calls : List Call} (h : ∀ call ∈ calls, call.kind ∈ kinds)
      (hunwrap : .unwrap ∉ kinds) : ∀ call ∈ calls, call.isFruitless = false :=
    fun call hmem => isFruitless_of_kind fun heq => hunwrap (heq ▸ h call hmem)
  cases h with
  | ran | spared => exact hkinds kind_of_tasks (by decide)
  | sent hretries =>
    refine List.forall_mem_append.2 ⟨fun call hmem => (hretries call hmem).not_isFruitless, ?_⟩
    exact List.forall_mem_cons.2 ⟨rfl, List.forall_mem_singleton.2 rfl⟩
  | silent hretries | stuck hretries =>
    exact List.forall_mem_append.2
      ⟨fun call hmem => (hretries call hmem).not_isFruitless, List.forall_mem_singleton.2 rfl⟩
  | opened hdemand hretries hverdict hprogress =>
    refine List.forall_mem_append.2 ⟨fun call hmem => (hretries call hmem).not_isFruitless, ?_⟩
    exact List.forall_mem_singleton.2 (decide_eq_false fun h => hprogress h.2)

/-- Behind a pass that has found no task, and has run none, something else is asked for. -/
theorem Pass.ne_task (h : Pass demand calls next) {pre after : List Call}
    (hsplit : calls = pre ++ .takeTask false :: after) :
    after = [] ∧ (pre.getLast? = some .runTask ∨ next ≠ .task) := by
  have hmem : Call.takeTask false ∈ calls := hsplit ▸ List.mem_append_right _ List.mem_cons_self
  cases h with
  | ran n =>
    obtain ⟨hafter, ⟨⟨⟩, -⟩ | hlast⟩ := eq_of_tasks_split hsplit
    exact ⟨hafter, .inl hlast⟩
  | spared hchanged => exact ⟨(eq_of_tasks_split hsplit).1, .inr hchanged⟩
  | sent hretries | silent hretries | stuck hretries | opened hdemand hretries =>
    rcases List.mem_append.1 hmem with hmem | hmem
    · cases (hretries _ hmem).1
    · simp at hmem

/-- Behind a call that is stuck a piece may be sent that calls before it have left.  If there is none, the pass ends. -/
theorem Pass.of_isStuck (h : Pass demand calls next) {pre rest : List Call} {call : Call}
    (hsplit : calls = pre ++ call :: rest) (hstuck : call.isStuck = true) :
    (∃ piece, rest = [.enqueue piece]) ∨ (rest = [] ∧ next = .output) := by
  have hmem : call ∈ calls := hsplit ▸ List.mem_append_right _ List.mem_cons_self
  have hkind := kind_of_isStuck hstuck
  cases h with
  | ran | spared =>
    have hother := kind_of_tasks call hmem
    rw [hkind] at hother
    cases (by decide : CallKind.wrap ∉ [CallKind.takeTask, .runTask]) hother
  | opened hdemand hretries =>
    rcases List.mem_append.1 hmem with hmem | hmem
    · rw [(hretries _ hmem).1] at hkind
      cases hkind
    · rw [List.mem_singleton.1 hmem] at hkind
      cases hkind
  | sent hretries =>
    obtain ⟨inner, hlast⟩ := split_retries hretries (not_isOverflow_of_isStuck hstuck) hsplit
    rcases inner with _ | ⟨first, inner⟩
    · obtain ⟨-, rfl⟩ := List.cons.inj hlast
      exact .inl ⟨_, rfl⟩
    · obtain ⟨-, htail⟩ := List.cons.inj hlast
      obtain ⟨rfl, -⟩ := eq_of_split_singleton htail
      cases hkind
  | silent hretries hverdict hnothing hother | stuck hretries hverdict hnothing hother =>
    obtain ⟨inner, hlast⟩ := split_retries hretries (not_isOverflow_of_isStuck hstuck) hsplit
    obtain ⟨rfl, rfl⟩ := eq_of_split_singleton hlast
    exact .inr ⟨rfl, (of_decide_eq_true hstuck).2.2⟩

/-- A pass for output begins with a call that wraps. -/
theorem Pass.head_of_output (h : Pass .output calls next) : ∃ call rest, calls = call :: rest ∧ call.kind = .wrap := by
  have hhead {retries rest : List Call} {last : Call} (hretries : ∀ call ∈ retries, call.IsRetry .wrap)
      (hlast : last.kind = .wrap) :
      ∃ call rest', retries ++ last :: rest = call :: rest' ∧ call.kind = .wrap := by
    rcases retries with _ | ⟨call, retries⟩
    · exact ⟨last, rest, rfl, hlast⟩
    · exact ⟨call, _, rfl, (hretries call List.mem_cons_self).1⟩
  cases h with
  | sent hretries | silent hretries | stuck hretries => exact hhead hretries rfl
  | opened hdemand => exact absurd hdemand (by decide)

/-- A fruitless call is the last of all, and makes the request fail. -/
theorem Ending.last_of_isFruitless (h : Ending said before calls result) {pre after : List Call} {call : Call}
    (hsplit : calls = pre ++ call :: after) (hfruitless : call.isFruitless = true) :
    after = [] ∧ result = .error (.noProgress .unwrap) := by
  have hmem : call ∈ calls := hsplit ▸ List.mem_append_right _ List.mem_cons_self
  have hunwrap : call.kind = .unwrap := kind_of_isFruitless hfruitless
  cases h with
  | secured => exact absurd (List.mem_singleton.1 hmem) (by rintro rfl; cases hunwrap)
  | taskless => exact absurd (List.mem_singleton.1 hmem) (by rintro rfl; cases hunwrap)
  | unsent hsaid hcalls =>
    have hwrap := (hcalls call hmem).1
    rw [hunwrap] at hwrap
    cases hwrap
  | @unopened retries last _ hsaid hretries hkind hlast =>
    obtain ⟨inner, hend⟩ := split_retries hretries (not_isOverflow_of_isFruitless hfruitless) hsplit
    rcases last with _ | last
    · exact absurd hend.symm (List.append_ne_nil_of_right_ne_nil _ (List.cons_ne_nil _ _))
    · obtain ⟨rfl, rfl⟩ := eq_of_split_singleton hend
      exact ⟨rfl, hlast _ rfl hfruitless⟩

/-- Of a result only an error counts. -/
theorem Ending.withResult {β : Type} {result' : Except ChannelError β} (h : Ending said before calls result)
    (hresult : ∀ e, result = .error e → result' = .error e) : Ending said before calls result' := by
  cases h with
  | secured hsaid => exact .secured hsaid
  | taskless hsaid hstill heq => exact .taskless hsaid hstill (hresult _ heq)
  | unsent hsaid hcalls hnone heq => exact .unsent hsaid hcalls hnone (hresult _ heq)
  | unopened hsaid hretries hkind hlast =>
    exact .unopened hsaid hretries hkind fun call hmem hfruitless => hresult _ (hlast call hmem hfruitless)

/-- Only an engine that is asked for a task, and has none, is asked for tasks and finds none. -/
theorem Ending.taskless_of_split (h : Ending said before calls result) {pre after : List Call}
    (hsplit : calls = pre ++ .takeTask false :: after) : after = [] ∧ result = .error (.noProgress .task) := by
  have hmem : Call.takeTask false ∈ calls := hsplit ▸ List.mem_append_right _ List.mem_cons_self
  cases h with
  | secured => cases List.mem_singleton.1 hmem
  | taskless hsaid hstill hresult => exact ⟨(eq_of_tasks_split hsplit).1, hresult⟩
  | unsent hsaid hcalls => cases (hcalls _ hmem).1
  | unopened hsaid hretries hkind =>
    rcases List.mem_append.1 hmem with hmem | hmem
    · cases (hretries _ hmem).1
    · cases hkind _ (Option.mem_toList.1 hmem)

/-- A call that is stuck is none of an ending. -/
theorem Ending.not_isStuck (h : Ending said before calls result) : ∀ call ∈ calls, call.isStuck = false := by
  intro call hmem
  refine Bool.eq_false_iff.2 fun hstuck => ?_
  have hkind := kind_of_isStuck hstuck
  cases h with
  | secured | taskless =>
    rw [List.mem_singleton.1 hmem] at hkind
    cases hkind
  | unsent hsaid hcalls =>
    rw [(hcalls call hmem).2] at hstuck
    cases hstuck
  | unopened hsaid hretries hunwrap =>
    rcases List.mem_append.1 hmem with hmem | hmem
    · rw [(hretries call hmem).1] at hkind
      cases hkind
    · rw [hunwrap call (Option.mem_toList.1 hmem)] at hkind
      cases hkind

/-- Only the ending of a handshake that is completed secures the session. -/
theorem Ending.eq_of_secures (h : Ending said before calls result) (hmem : .moveTo .secured ∈ calls) :
    calls = [.moveTo .secured] := by
  cases h with
  | secured => rfl
  | taskless => cases List.mem_singleton.1 hmem
  | unsent hsaid hcalls => cases (hcalls _ hmem).1
  | unopened hsaid hretries hkind =>
    rcases List.mem_append.1 hmem with hmem | hmem
    · cases (hretries _ hmem).1
    · cases hkind _ (Option.mem_toList.1 hmem)

theorem Pass.not_secures (h : Pass demand calls next) : .moveTo .secured ∉ calls := by
  intro hmem
  cases h with
  | ran | spared => cases (by decide : CallKind.moveTo .secured ∉ [CallKind.takeTask, .runTask]) (kind_of_tasks _ hmem)
  | sent hretries | silent hretries | stuck hretries | opened hdemand hretries =>
    rcases List.mem_append.1 hmem with hmem | hmem
    · cases (hretries _ hmem).1
    · simp at hmem

/-- The calls of the loop: passes behind each other, each for what the engine has said last, which depends on the
calls so far, then an ending.  When the handshake is completed, records may follow. -/
inductive Loop {α : Type} (said : List Call → Option Demand) :
    List Call → List Call → Except ChannelError α → Prop where
  | stops {before ending records : List Call} {result : Except ChannelError α}
    (hending : Ending said before ending result) (hrecords : records = [] ∨ ending = [.moveTo .secured]) :
    Loop said before (ending ++ records) result
  | goesOn {before calls rest : List Call} {demand next : Demand} {result : Except ChannelError α}
    (hsaid : said before = some demand) (hpass : Pass demand calls next)
    (hnext : said (before ++ calls) = some next) (hrest : Loop said (before ++ calls) rest result) :
    Loop said before (calls ++ rest) result

theorem Loop.withResult {β : Type} {result' : Except ChannelError β} (h : Loop said before calls result)
    (hresult : ∀ e, result = .error e → result' = .error e) : Loop said before calls result' := by
  induction h with
  | stops hending hrecords => exact .stops (hending.withResult hresult) hrecords
  | goesOn hsaid hpass hnext hrest ih => exact .goesOn hsaid hpass hnext (ih hresult)

/-- Behind a handshake that is completed there may be records. -/
theorem Loop.append (h : Loop said before calls result) (hmem : .moveTo .secured ∈ calls) (records : List Call) :
    Loop said before (calls ++ records) result := by
  induction h with
  | @stops before ending records' result hending hrecords =>
    have hsecured : ending = [.moveTo .secured] := by
      rcases List.mem_append.1 hmem with hmem | hmem
      · exact hending.eq_of_secures hmem
      · exact hrecords.resolve_left (List.ne_nil_of_mem hmem)
    rw [List.append_assoc]
    exact .stops hending (.inr hsecured)
  | goesOn hsaid hpass hnext hrest ih =>
    have hlater := (List.mem_append.1 hmem).resolve_left hpass.not_secures
    rw [List.append_assoc]
    exact .goesOn hsaid hpass hnext (ih hlater)

/-- Before the handshake is completed, a call is one of a pass, behind which the loop goes on, or one of the ending,
behind which there are no records. -/
theorem Loop.split (h : Loop said before calls result) {pre after : List Call} {call : Call}
    (hsplit : calls = pre ++ call :: after) (hopen : .moveTo .secured ∉ pre) (hcall : call ≠ .moveTo .secured) :
    (∃ start inner rest more demand next, pre = start ++ inner ∧ after = rest ++ more ∧
        Pass demand (inner ++ call :: rest) next ∧
        said (before ++ (start ++ (inner ++ call :: rest))) = some next ∧
        Loop said (before ++ (start ++ (inner ++ call :: rest))) more result) ∨
      ∃ start inner, Ending said (before ++ start) (inner ++ call :: after) result := by
  induction h generalizing pre with
  | @stops before ending records result hending hrecords =>
    refine .inr ⟨[], pre, ?_⟩
    rcases hrecords with rfl | rfl
    · rw [List.append_nil] at hsplit ⊢
      rwa [← hsplit]
    -- nothing but the move that ends the handshake stands before the records
    · rcases pre with _ | ⟨first, pre⟩
      · exact absurd (List.cons.inj hsplit).1.symm hcall
      · obtain ⟨rfl, -⟩ := List.cons.inj hsplit
        exact absurd List.mem_cons_self hopen
  | @goesOn before calls more demand next result hsaid hpass hnext hrest ih =>
    rcases split_append hsplit with ⟨rest, rfl, rfl⟩ | ⟨pre, rfl, hmore⟩
    · exact .inl ⟨[], pre, rest, more, demand, next, rfl, rfl, hpass, hnext, hrest⟩
    · rcases ih hmore fun hmem => hopen (List.mem_append_right _ hmem) with
        ⟨start, inner, rest, more, demand, next, rfl, rfl, hpass', hnext', hrest'⟩ | ⟨start, inner, hending⟩
      · rw [List.append_assoc before, ← List.append_assoc calls] at hnext' hrest'
        exact .inl ⟨calls ++ start, inner, rest, more, demand, next, (List.append_assoc ..).symm, rfl, hpass', hnext',
          hrest'⟩
      · rw [List.append_assoc] at hending
        exact .inr ⟨calls ++ start, inner, hending⟩

/-- When no output can be fetched, the first call wraps, unless no buffer can be had. -/
theorem Ending.head_of_output (h : Ending said before calls result) (hsaid : said before = some .output) :
    (∃ call rest, calls = call :: rest ∧ call.kind = .wrap) ∨ calls = [] ∧ ∃ e, result = .error (.buffer e) := by
  cases h with
  | secured hother | taskless hother =>
    rw [hsaid] at hother
    cases hother
  | unopened hother =>
    rw [hsaid] at hother
    exact absurd hother (by decide)
  | unsent _ hcalls hnone hresult =>
    rcases calls with _ | ⟨call, calls⟩
    · obtain ⟨b, rfl⟩ := hnone rfl
      exact .inr ⟨rfl, b, hresult⟩
    · exact .inl ⟨call, calls, rfl, (hcalls call List.mem_cons_self).1⟩

/-- When output is asked for, the next call wraps, unless no buffer can be had. -/
theorem Loop.head_of_output (h : Loop said before calls result) (hsaid : said before = some .output) :
    (∃ call rest, calls = call :: rest ∧ call.kind = .wrap) ∨ calls = [] ∧ ∃ e, result = .error (.buffer e) := by
  cases h with
  | stops hending hrecords =>
    rcases hending.head_of_output hsaid with ⟨call, rest, rfl, hkind⟩ | ⟨rfl, hresult⟩
    · exact .inl ⟨call, _, rfl, hkind⟩
    · obtain rfl := hrecords.resolve_right (by nofun)
      exact .inr ⟨rfl, hresult⟩
  | goesOn hother hpass hnext hrest =>
    rw [hsaid] at hother
    obtain rfl := Option.some.inj hother
    obtain ⟨call, rest, rfl, hkind⟩ := hpass.head_of_output
    exact .inl ⟨call, _, rfl, hkind⟩

/-- The kinds of calls that a request makes before the loop of the handshake begins. -/
def openingKinds : List CallKind := [.create, .setSide, .setCertificatePolicy, .startHandshake, .moveTo .securing]

/-- The calls of a request that drives a handshake. -/
inductive Run {α : Type} (said : List Call → Option Demand) (before : List Call) :
    List Call → Except ChannelError α → Prop where
  | turnedDown {opening : List Call} {result : Except ChannelError α}
    (hopening : ∀ call ∈ opening, call.kind ∈ openingKinds) (hresult : ∃ e, result = .error e) :
    Run said before opening result
  | shaken {opening calls : List Call} {result : Except ChannelError α}
    (hopening : ∀ call ∈ opening, call.kind ∈ openingKinds) (hloop : Loop said (before ++ opening) calls result) :
    Run said before (opening ++ calls) result

theorem Run.withResult {β : Type} {result' : Except ChannelError β} (h : Run said before calls result)
    (hresult : ∀ e, result = .error e → result' = .error e) : Run said before calls result' := by
  cases h with
  | turnedDown hopening heq =>
    obtain ⟨e, rfl⟩ := heq
    exact .turnedDown hopening ⟨e, hresult e rfl⟩
  | shaken hopening hloop => exact .shaken hopening (hloop.withResult hresult)

theorem Run.prepend {opening : List Call} (hopening : ∀ call ∈ opening, call.kind ∈ openingKinds)
    (h : Run said (before ++ opening) calls result) : Run said before (opening ++ calls) result := by
  cases h with
  | turnedDown hkinds hresult => exact .turnedDown (List.forall_mem_append.2 ⟨hopening, hkinds⟩) hresult
  | shaken hkinds hloop =>
    rw [List.append_assoc before] at hloop
    rw [← List.append_assoc]
    exact .shaken (List.forall_mem_append.2 ⟨hopening, hkinds⟩) hloop

section Calls

variable (h : Run said before calls result) {pre after : List Call} {call : Call}

include h

/-- A call of another kind than those of the opening is one of the loop. -/
theorem Run.loop (hsplit : calls = pre ++ call :: after) (hkind : call.kind ∉ openingKinds) :
    ∃ opening inner, pre = opening ++ inner ∧ Loop said (before ++ opening) (inner ++ call :: after) result := by
  cases h with
  | turnedDown hopening =>
    exact absurd (hopening call (hsplit ▸ List.mem_append_right _ List.mem_cons_self)) hkind
  | @shaken opening calls result hopening hloop =>
    rcases split_append hsplit with ⟨rest, rfl, -⟩ | ⟨inner, rfl, rfl⟩
    · exact absurd (hopening call (List.mem_append_right _ List.mem_cons_self)) hkind
    · exact ⟨opening, inner, rfl, hloop⟩

/-- Before the handshake is completed, a fruitless call is the last of all and makes the request fail. -/
theorem Run.last_of_isFruitless (hsplit : calls = pre ++ call :: after) (hopen : .moveTo .secured ∉ pre)
    (hfruitless : call.isFruitless = true) : after = [] ∧ result = .error (.noProgress .unwrap) := by
  have hunwrap : call.kind = .unwrap := kind_of_isFruitless hfruitless
  obtain ⟨opening, inner, rfl, hloop⟩ := h.loop hsplit (by rw [hunwrap]; decide)
  rcases hloop.split rfl (fun hmem => hopen (List.mem_append_right _ hmem)) (by rintro rfl; cases hunwrap) with
    ⟨start, inner, rest, more, demand, next, -, -, hpass, -⟩ | ⟨start, inner, hending⟩
  · rw [hpass.not_isFruitless call (List.mem_append_right _ List.mem_cons_self)] at hfruitless
    cases hfruitless
  · exact hending.last_of_isFruitless rfl hfruitless

/-- Before the handshake is completed, an engine that is asked for a task, has none and still asks for one is called
no more, and makes the request fail. -/
theorem Run.taskless (hsplit : calls = pre ++ .takeTask false :: after) (hopen : .moveTo .secured ∉ pre)
    (hnone : pre.getLast? ≠ some .runTask) (hstill : said (before ++ (pre ++ [.takeTask false])) = some .task) :
    after = [] ∧ result = .error (.noProgress .task) := by
  obtain ⟨opening, inner, rfl, hloop⟩ := h.loop hsplit (by decide)
  rcases hloop.split rfl (fun hmem => hopen (List.mem_append_right _ hmem)) nofun with
    ⟨start, inner, rest, more, demand, next, rfl, rfl, hpass, hnext, -⟩ | ⟨start, inner, hending⟩
  · obtain ⟨rfl, hlast | hchanged⟩ := hpass.ne_task rfl
    · exact absurd (by rw [List.getLast?_append, List.getLast?_append, hlast]; rfl) hnone
    · simp only [List.append_assoc] at hnext hstill
      rw [hstill] at hnext
      exact absurd (Option.some.inj hnext).symm hchanged
  · exact hending.taskless_of_split rfl

/-- Before the handshake is completed, a call that is stuck is made once more, unless calls before it have left a piece
that is sent, or no buffer can be had. -/
theorem Run.next_of_isStuck (hsplit : calls = pre ++ call :: after) (hopen : .moveTo .secured ∉ pre)
    (hstuck : call.isStuck = true) :
    (∃ next rest, after = next :: rest ∧ (next.kind = .wrap ∨ next.kind = .enqueue)) ∨
      after = [] ∧ ∃ e, result = .error (.buffer e) := by
  have hwrap : call.kind = .wrap := kind_of_isStuck hstuck
  obtain ⟨opening, inner, rfl, hloop⟩ := h.loop hsplit (by rw [hwrap]; decide)
  rcases hloop.split rfl (fun hmem => hopen (List.mem_append_right _ hmem)) (by rintro rfl; cases hwrap) with
    ⟨start, inner, rest, more, demand, next, rfl, rfl, hpass, hnext, hmore⟩ | ⟨start, inner, hending⟩
  · rcases hpass.of_isStuck rfl hstuck with ⟨piece, rfl⟩ | ⟨rfl, rfl⟩
    · exact .inl ⟨_, more, rfl, .inr rfl⟩
    · exact (hmore.head_of_output hnext).imp_left fun ⟨next, rest, heq, hkind⟩ => ⟨next, rest, heq, .inl hkind⟩
  · rw [hending.not_isStuck call (List.mem_append_right _ List.mem_cons_self)] at hstuck
    cases hstuck

end Calls

end Shaking

end SecureStream

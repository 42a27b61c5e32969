import SecureStream.Engine.Playback
import SecureStream.Proofs.Buffer.Growth
import SecureStream.Proofs.Channel.Gate

/-!
# The loop over the records gets ahead

On an open channel, a pass of the loop that unwraps goes on in one of three ways (`Reading.Pass`): the buffer has
grown by one step, or a byte of the input has been used up, or the engine has used up nothing and still left a
message, which is handed over.  The third way is a windfall.  The loop takes it for progress, although it offers
the engine the same input again.

* (a) A pass that goes on takes something from the budget of the loop, which is the input that is left and the steps
  that are left to the buffer, unless it is a windfall (`Reading.Pass.budget_lt`).  So there are no more passes than
  the budget allows, one for each windfall, and the last (`Reading.Run.countOf_le`).
* (b) An engine that is done and has used up nothing makes the read fail, unless there is a windfall
  (`Reading.Run.answersIdle`).
-/

namespace SecureStream

namespace Call

/-- The engine is done and has used up nothing. -/
def isIdle : Call → Bool
  | unwrap _ _ (.ok r) => decide (r.verdict = .ok ∧ r.consumed = 0)
  | _ => false

theorem isIdle_of_kind {call : Call} (h : call.kind ≠ .unwrap) : call.isIdle = false := by
  cases call with
  | unwrap => exact absurd rfl h
  | _ => rfl

/-- How many calls are idle. -/
def idles (calls : List Call) : Nat := calls.countP isIdle

theorem idles_of_kinds {calls : List Call} {kinds : List CallKind} (h : ∀ call ∈ calls, call.kind ∈ kinds)
    (hkinds : .unwrap ∉ kinds) : idles calls = 0 := by
  rw [idles, List.countP_eq_zero]
  intro call hmem
  rw [isIdle_of_kind fun heq => hkinds (heq ▸ h call hmem)]
  exact Bool.false_ne_true

theorem idles_dropLast_append {a b : List Call} (h : b ≠ []) :
    idles (a ++ b).dropLast = idles a + idles b.dropLast := by
  rw [List.dropLast_append_of_ne_nil h, idles, List.countP_append]
  rfl

/-- When only the first of some calls unwraps, no other is idle. -/
theorem split_idle {first call : Call} {rest before after : List Call} {kinds : List CallKind}
    (hsplit : first :: rest = before ++ call :: after) (hidle : call.isIdle = true)
    (hrest : ∀ call ∈ rest, call.kind ∈ kinds) (hkinds : .unwrap ∉ kinds) : first = call ∧ rest = after := by
  cases before with
  | nil => exact List.cons.inj hsplit
  | cons head before =>
    obtain ⟨-, rfl⟩ := List.cons.inj hsplit
    have hkind := hrest call (List.mem_append_right _ List.mem_cons_self)
    rw [isIdle_of_kind fun heq => hkinds (heq ▸ hkind)] at hidle
    cases hidle

/-- An idle call makes a read fail, or a message is handed over behind it. -/
def AnswersIdle {α : Type} (after : List Call) (result : Except ChannelError α) : Prop :=
  (after = [] ∧ result = .error (.noProgress .unwrap)) ∨
    ∃ message rest, message ≠ [] ∧ after = .deliver message :: rest

end Call

/-- Where the loop over the records stands: the input that is left, the capacity of its buffer, and how many bytes
of it count. -/
structure Reading where
  left : Bytes
  capacity : Nat
  filled : Nat

namespace Reading

/-- The space that the engine is given. -/
def room (x : Reading) : Nat := x.capacity - x.filled

/-- How often the loop can go on by growing its buffer or by using up a byte. -/
def budget (p : Pool) (x : Reading) : Nat := x.left.length + (p.limit - x.capacity) / p.growth

/-- The calls of one pass behind which the loop goes on. -/
inductive Pass (p : Pool) (x : Reading) : List Call → Reading → Prop where
  | grown {r : Reply} (hverdict : r.verdict = .overflow) (hwithin : x.capacity + p.growth ≤ p.limit) :
    Pass p x [.unwrap x.left x.room (.ok r)]
      ⟨x.left.drop r.consumed, x.capacity + p.growth, min (x.filled + r.produced) x.capacity⟩
  | used {r : Reply} {messages : List Call} (hverdict : r.verdict = .ok) (hsome : 0 < r.consumed)
    (hmore : r.consumed < x.left.length) (hmessages : ∀ call ∈ messages, call.kind ∈ [CallKind.deliver]) :
    Pass p x (.unwrap x.left x.room (.ok r) :: messages) ⟨x.left.drop r.consumed, x.capacity, 0⟩
  | windfall {r : Reply} {message : Bytes} (hverdict : r.verdict = .ok) (hnone : r.consumed = 0)
    (hmessage : message ≠ []) :
    Pass p x [.unwrap x.left x.room (.ok r), .deliver message] ⟨x.left, x.capacity, 0⟩

/-- The calls of the loop.  Behind the last one that unwraps, a message may be handed over, or an alert answered. -/
inductive Run {α : Type} (p : Pool) : Reading → List Call → Except ChannelError α → Prop where
  | last {x : Reading} {answer : Except EngineError Reply} {after : List Call} {result : Except ChannelError α}
    (hkinds : ∀ call ∈ after, call.kind ∈ [CallKind.deliver, .moveTo .connected, .wrap, .enqueue])
    (hidle : (Call.unwrap x.left x.room answer).isIdle = true → Call.AnswersIdle after result) :
    Run p x (.unwrap x.left x.room answer :: after) result
  | next {x y : Reading} {calls rest : List Call} {result : Except ChannelError α} (hpass : Pass p x calls y)
    (hrest : Run p y rest result) : Run p x (calls ++ rest) result

variable {α : Type} {p : Pool} {x y : Reading} {calls : List Call} {result : Except ChannelError α}

theorem Pass.countOf_eq (h : Pass p x calls y) : Call.countOf .unwrap calls = 1 := by
  cases h with
  | grown | windfall => rfl
  | used hverdict hsome hmore hmessages =>
    rw [Call.countOf_cons, Call.countOf_of_kinds hmessages (by decide)]
    rfl

/-- A pass takes something from the budget, or is a windfall. -/
theorem Pass.budget_lt (h : Pass p x calls y) : y.budget p < x.budget p + Call.idles calls := by
  cases h with
  | grown hverdict hwithin =>
    have hsteps := div_sub_step p.zero_lt_growth hwithin
    simp only [budget, List.length_drop]
    omega
  | used hverdict hsome hmore hmessages =>
    simp only [budget, List.length_drop]
    omega
  | @windfall r message hverdict hnone hmessage =>
    have hidle : Call.idles [.unwrap x.left x.room (.ok r), .deliver message] = 1 := by
      simp [Call.idles, Call.isIdle, hverdict, hnone]
    rw [hidle]
    exact Nat.lt_succ_self _

/-- The idle call of a pass is its first, and a message is handed over behind it. -/
theorem Pass.answersIdle (h : Pass p x calls y) {before rest : List Call} {call : Call}
    (hsplit : calls = before ++ call :: rest) (hidle : call.isIdle = true) :
    ∃ message rest', message ≠ [] ∧ rest = .deliver message :: rest' := by
  cases h with
  | grown hverdict hwithin =>
    have hkinds : ∀ call ∈ ([] : List Call), call.kind ∈ ([] : List CallKind) := nofun
    obtain ⟨rfl, -⟩ := Call.split_idle hsplit hidle hkinds (by decide)
    rw [Call.isIdle, hverdict] at hidle
    cases hidle
  | used hverdict hsome hmore hmessages =>
    obtain ⟨rfl, -⟩ := Call.split_idle hsplit hidle hmessages (by decide)
    exact absurd (of_decide_eq_true hidle).2 (Nat.ne_of_gt hsome)
  | @windfall r message hverdict hnone hmessage =>
    have hkinds : ∀ call ∈ [Call.deliver message], call.kind ∈ [CallKind.deliver] :=
      List.forall_mem_singleton.2 (List.mem_singleton.2 rfl)
    obtain ⟨-, rfl⟩ := Call.split_idle hsplit hidle hkinds (by decide)
    exact ⟨_, [], hmessage, rfl⟩

/-- Of a result only an error counts. -/
theorem Run.withResult {β : Type} {result' : Except ChannelError β} (h : Run p x calls result)
    (hresult : ∀ e, result = .error e → result' = .error e) : Run p x calls result' := by
  induction h with
  | last hkinds hidle =>
    refine .last hkinds fun hcall => ?_
    exact (hidle hcall).imp_left fun ⟨hnil, herror⟩ => ⟨hnil, hresult _ herror⟩
  | next hpass hrest ih => exact .next hpass (ih hresult)

theorem Run.ne_nil (h : Run p x calls result) : calls ≠ [] := by
  induction h with
  | last => exact List.cons_ne_nil _ _
  | next hpass hrest ih => exact List.append_ne_nil_of_right_ne_nil _ ih

/-- No more calls unwrap than the budget allows, one for each windfall, and one.  An idle call that is not the last
of all calls is a windfall. -/
theorem Run.countOf_le (h : Run p x calls result) :
    Call.countOf .unwrap calls ≤ x.budget p + 1 + Call.idles calls.dropLast := by
  induction h with
  | @last x answer after result hkinds hidle =>
    rw [Call.countOf_cons, Call.countOf_of_kinds hkinds (by decide)]
    show 0 + 1 ≤ _
    omega
  | next hpass hrest ih =>
    have hlt := hpass.budget_lt
    rw [Call.countOf_append, hpass.countOf_eq, Call.idles_dropLast_append hrest.ne_nil]
    omega

theorem Run.answersIdle (h : Run p x calls result) {before after : List Call} {call : Call}
    (hsplit : calls = before ++ call :: after) (hidle : call.isIdle = true) : Call.AnswersIdle after result := by
  induction h generalizing before after with
  | last hkinds hlast =>
    obtain ⟨rfl, rfl⟩ := Call.split_idle hsplit hidle hkinds (by decide)
    exact hlast hidle
  | next hpass hrest ih =>
    rcases split_append hsplit with ⟨rest, hfirst, rfl⟩ | ⟨pre, rfl, hafter⟩
    · obtain ⟨message, rest', hmessage, rfl⟩ := hpass.answersIdle hfirst hidle
      exact .inr ⟨message, _, hmessage, rfl⟩
    · exact ih hafter

end Reading

namespace Link

variable {E S : Type} [Engine E] [Session S]

/-- The loop over the records is such a run. -/
theorem run_unwrapAll (pool : Pool) (k : Link E S) (input : Bytes) (b : Scratch) (n : Nat) (hb : b.IsOf pool) :
    ∃ calls, Made calls k (k.unwrapAll pool input b n).2 ∧
      Reading.Run pool ⟨input, b.capacity, b.size⟩ calls (k.unwrapAll pool input b n).1 := by
  -- a call behind which the loop ends
  have hlast {k k' : Link E S} {input : Bytes} {b : Scratch} {answer : Except EngineError Reply}
      {after : List Call} {result : Except ChannelError (Outcome × Bytes)}
      (hmade : Made (.unwrap input b.room answer :: after) k k')
      (hkinds : ∀ call ∈ after, call.kind ∈ [CallKind.deliver, .moveTo .connected, .wrap, .enqueue])
      (hidle : (Call.unwrap input b.room answer).isIdle = true → Call.AnswersIdle after result) :
      ∃ calls, Made calls k k' ∧ Reading.Run pool ⟨input, b.capacity, b.size⟩ calls result :=
    ⟨_, hmade, .last hkinds hidle⟩
  have hbusy {input : Bytes} {room : Nat} {r : Reply} {after : List Call}
      {result : Except ChannelError (Outcome × Bytes)} (hverdict : r.verdict ≠ .ok)
      (hidle : (Call.unwrap input room (.ok r)).isIdle = true) : Call.AnswersIdle after result :=
    absurd (of_decide_eq_true hidle).1 hverdict
  fun_induction unwrapAll pool k input b n with
  | case1 k input b n e after hunwrap =>
    exact hlast (made_unwrap hunwrap) (List.forall_mem_nil _) fun h => by cases h
  | case2 k input b n r after hunwrap filled hverdict hstuck =>
    exact hlast (made_unwrap hunwrap) (List.forall_mem_nil _) fun _ => .inl ⟨rfl, rfl⟩
  | case3 k input b n r after hunwrap rest filled hverdict hprogress served hrest =>
    have hmade := (made_unwrap hunwrap).trans (after.made_handOver r.consumed filled)
    refine hlast hmade (fun call hmem => ?_) fun hidle => ?_
    · exact List.mem_cons.2 (.inl (List.mem_singleton.1 (kind_of_handed call hmem)))
    · have hnonempty : filled.bytes ≠ [] := fun hempty =>
        hprogress ⟨Scratch.isEmpty_iff.2 hempty, (of_decide_eq_true hidle).2⟩
      rw [if_neg hnonempty]
      exact .inr ⟨_, [], hnonempty, rfl⟩
  | case4 k input b n r after hunwrap rest filled hverdict hprogress served hrest ih =>
    obtain ⟨calls, hmade', hrun⟩ := ih (hb.store _ _).clear
    have hmade := (made_unwrap hunwrap).trans (after.made_handOver r.consumed filled)
    refine ⟨_, hmade.trans hmade', ?_⟩
    by_cases hnone : r.consumed = 0
    · have hnonempty : filled.bytes ≠ [] := fun hempty => hprogress ⟨Scratch.isEmpty_iff.2 hempty, hnone⟩
      have hsame : rest = input := by rw [← List.drop_zero (l := input), ← hnone]
      rw [hsame] at hrun ⊢
      rw [if_neg hnonempty]
      exact .next (.windfall hverdict hnone hnonempty) hrun
    · rw [List.isEmpty_iff, List.drop_eq_nil_iff] at hrest
      exact .next (.used hverdict (Nat.pos_of_ne_zero hnone) (Nat.lt_of_not_le hrest) kind_of_handed) hrun
  | case5 k input b n r after hunwrap rest hverdict =>
    have hnoted := made_note after (.recordRetained rest.length)
    have hmade := (made_unwrap hunwrap).trans hnoted
    exact hlast hmade (List.forall_mem_nil _) (hbusy (by rw [hverdict]; decide))
  | case7 k input b n r after hunwrap rest filled hverdict grown hgrow ih =>
    obtain ⟨hof, hbytes, -⟩ := (hb.store r.output r.produced).of_grow hgrow
    obtain ⟨calls, hmade, hrun⟩ := ih hof
    have hcapacity : grown.capacity = b.capacity + pool.growth := Scratch.capacity_of_grow (hb.store _ _) hgrow
    have hsize : grown.size = min (b.size + r.produced) b.capacity :=
      (congrArg List.length hbytes).trans (b.size_store r.output r.produced)
    have hwithin := hof.capacity_le
    rw [hcapacity] at hrun hwithin
    rw [hsize] at hrun
    exact ⟨_, (made_unwrap hunwrap).trans hmade, .next (.grown hverdict hwithin) hrun⟩
  | case8 k input b n r after hunwrap hverdict hopen e last hanswer
  | case9 k input b n r after hunwrap rest hverdict hopen last hanswer =>
    have hclosed := after.makes_answerClose pool r.demand
    rw [hanswer] at hclosed
    obtain ⟨calls, hmade, hkinds⟩ := hclosed
    have hfirst := (made_unwrap hunwrap).trans hmade
    exact hlast hfirst (fun call hmem => List.mem_cons_of_mem _ (hkinds call hmem)) (hbusy (by rw [hverdict]; decide))
  | _ =>
    exact hlast (made_unwrap ‹_›) (List.forall_mem_nil _) (hbusy (by rw [‹Reply.verdict _ = _›]; decide))

theorem run_unwrapRecords (pool : Pool) (k : Link E S) (input : Bytes) :
    ∃ calls, Made calls k (k.unwrapRecords pool input).2 ∧
      (calls = [] ∨
        Reading.Run pool ⟨input, pool.plaintextRoom input.length, 0⟩ calls (k.unwrapRecords pool input).1) := by
  unfold unwrapRecords
  split
  · exact ⟨[], .refl _, .inl rfl⟩
  · rcases hmade : Scratch.ofCapacity? (pool.plaintextRoom input.length) pool with e | b
    · exact ⟨[], .refl _, .inl rfl⟩
    · obtain ⟨hof, hsize, hcapacity⟩ := Scratch.isOf_of_ofCapacity? hmade
      obtain ⟨calls, hcalls, hrun⟩ := k.run_unwrapAll pool input b 0 hof
      rw [hsize, hcapacity] at hrun
      exact ⟨calls, hcalls, .inr hrun⟩

end Link

namespace Channel

variable {E S : Type} [Engine E] [Session S] (c : Channel E) (make : EngineMaker E) (s : S) (input : Bytes)

/-- The calls of a read on an open channel: the engine is made, if there is none, and then the loop runs. -/
private theorem run_receive (hstate : Session.state s = .secured) :
    let turn := c.receive make s input
    let pending := c.pending ++ input
    ∃ before loop, turn.calls.toList = before ++ loop ∧ (∀ call ∈ before, call.kind ∈ prepareKinds) ∧
      (loop = [] ∨ Reading.Run c.pool ⟨pending, c.pool.plaintextRoom pending.length, 0⟩ loop turn.result) := by
  obtain ⟨request, hreceive, hrequest⟩ := c.receive_reads make s input
  rw [hreceive]
  rcases c.serve_makes make s with ⟨e, hfails⟩ | ⟨k, ⟨made, hmade, hmakes⟩, -, hserve⟩
  · rw [hfails]
    exact ⟨[.create _], [], rfl, List.forall_mem_singleton.2 (List.mem_cons_self ..), .inl rfl⟩
  · rw [hserve]
    rcases hrequest k with ⟨e, hturn⟩ | ⟨pending, backlog, result, hturn, rfl, herror, -⟩
    · rw [hturn]
      exact ⟨made, [], hmade.calls_eq.trans (List.append_nil _).symm, hmakes, .inl rfl⟩
    · have hsecured : k.state = .secured := by
        rw [Link.state, hmade.session_eq, Call.onAll_of_kinds s hmakes (by decide), hstate]
      have hread : k.read c.pool c.runner (c.pending ++ input) = k.unwrapRecords c.pool (c.pending ++ input) :=
        if_pos hsecured
      obtain ⟨calls, hcalls, hrun⟩ := k.run_unwrapRecords c.pool (c.pending ++ input)
      rw [← hread] at hcalls hrun
      rw [hturn]
      exact ⟨made, calls, (hmade.trans hcalls).calls_eq, hmakes, hrun.imp_right (·.withResult herror)⟩

/-- Whatever its engine answers, a read on an open channel gets ahead with every pass of its loop, except for
windfalls.  An engine that is done and has used up nothing makes the read fail, unless a message is handed over
right behind the call.  Without windfalls no more calls unwrap than there are bytes of input and steps of the
buffer, and one more; each windfall allows another. -/
theorem receive_advances (hstate : Session.state s = .secured) :
    let turn := c.receive make s input
    let calls := turn.calls.toList
    let pending := c.pending ++ input
    (∃ before loop, calls = before ++ loop ∧ (∀ call ∈ before, call.kind ∈ prepareKinds) ∧
        (loop = [] ∨ Reading.Run c.pool ⟨pending, c.pool.plaintextRoom pending.length, 0⟩ loop turn.result)) ∧
      (∀ before call after, calls = before ++ call :: after → call.isIdle = true →
        Call.AnswersIdle after turn.result) ∧
      Call.countOf .unwrap calls ≤
        pending.length + (c.pool.limit - c.pool.plaintextRoom pending.length) / c.pool.growth + 1 +
          Call.idles calls.dropLast := by
  intro turn calls pending
  obtain ⟨made, loop, hcalls, hmakes, hloop⟩ := c.run_receive make s input hstate
  refine ⟨⟨made, loop, hcalls, hmakes, hloop⟩, fun before call after hsplit hidle => ?_, ?_⟩
  · rcases split_append (hcalls.symm.trans hsplit) with ⟨rest, hmade, -⟩ | ⟨pre, -, hrest⟩
    · have hkind := hmakes call (hmade ▸ List.mem_append_right _ List.mem_cons_self)
      rw [Call.isIdle_of_kind fun heq => absurd (heq ▸ hkind) (by decide)] at hidle
      cases hidle
    · rcases hloop with rfl | hloop
      · exact absurd hrest (List.append_ne_nil_of_right_ne_nil _ (List.cons_ne_nil _ _)).symm
      · exact hloop.answersIdle hrest hidle
  · show Call.countOf .unwrap (c.receive make s input).calls.toList ≤ _
    have hnone : Call.countOf .unwrap made = 0 := Call.countOf_of_kinds hmakes (by decide)
    rcases hloop with rfl | hloop
    · rw [hcalls, List.append_nil, hnone]
      exact Nat.zero_le _
    · have hidles : Call.idles calls.dropLast = Call.idles loop.dropLast := by
        show Call.idles (c.receive make s input).calls.toList.dropLast = _
        rw [hcalls, Call.idles_dropLast_append hloop.ne_nil, Call.idles_of_kinds hmakes (by decide), Nat.zero_add]
      rw [hcalls, Call.countOf_append, hnone, Nat.zero_add, hidles]
      exact hloop.countOf_le

/-- The buffer grows once, then a byte is used up, and then an idle call makes the read fail. -/
theorem receive_advances_to_failure :
    let pool := Pool.ofSizing ((Sizing.usual.withGrowth 4).withLimit 10)
    let script : List ScriptStep :=
      [.unwrap ⟨.overflow, .none, 0, 0, []⟩, .unwrap ⟨.ok, .none, 1, 1, [5]⟩, .unwrap ⟨.ok, .none, 0, 0, []⟩]
    let make : EngineMaker Playback := fun _ => .ok (.start .none script 256)
    let s := Journal.secured true .unknown
    let turn := (closed pool .onTheSpot).receive make s [9, 9]
    Session.state s = .secured ∧ turn.result = .error (.noProgress .unwrap) ∧
      Call.countOf .unwrap turn.calls.toList = 3 ∧
      Call.countOf .unwrap turn.calls.toList ≤ 2 + (pool.limit - pool.plaintextRoom 2) / pool.growth + 1 := by
  intro pool script make s turn
  obtain ⟨-, hanswers, hcount⟩ := (closed pool .onTheSpot).receive_advances make s [9, 9] rfl
  have hidles : Call.idles turn.calls.toList.dropLast = 0 := by decide +kernel
  have hlast : turn.calls.toList.getLast?.any Call.isIdle = true := by decide +kernel
  obtain ⟨call, hcall, hidle⟩ := (Option.any_eq_true _ _).1 hlast
  obtain ⟨before, hsplit⟩ := List.getLast?_eq_some_iff.1 hcall
  have hresult : turn.result = .error (.noProgress .unwrap) := by
    rcases hanswers before call [] hsplit hidle with ⟨-, herror⟩ | ⟨message, rest, -, ⟨⟩⟩
    exact herror
  have hcalls : Call.countOf .unwrap turn.calls.toList = 3 := by decide +kernel
  change Call.countOf .unwrap turn.calls.toList ≤ _ + Call.idles turn.calls.toList.dropLast at hcount
  rw [hidles] at hcount
  exact ⟨rfl, hresult, hcalls, hcount⟩

/-- An engine that goes on leaving messages and uses up nothing is called more often than there are bytes of input
and steps of the buffer. -/
theorem read_with_windfalls :
    let pool := Pool.ofSizing (Sizing.usual.withLimit 10)
    let script : List ScriptStep :=
      [.unwrap ⟨.ok, .none, 0, 1, [5]⟩, .unwrap ⟨.ok, .none, 0, 1, [6]⟩, .unwrap ⟨.ok, .none, 1, 1, [7]⟩]
    let make : EngineMaker Playback := fun _ => .ok (.start .none script 256)
    let turn := (closed pool .onTheSpot).receive make (Journal.secured true .unknown) [255]
    turn.result = .ok (.delivered 3) ∧ Call.idles turn.calls.toList = 2 ∧
      ¬ Call.countOf .unwrap turn.calls.toList ≤ 1 + (pool.limit - pool.plaintextRoom 1) / pool.growth + 1 := by
  intro pool script make turn
  have hresult : turn.result = .ok (.delivered 3) := Turn.result_of_toOption (by decide +kernel)
  refine ⟨hresult, ?_, ?_⟩ <;> decide +kernel

end Channel

end SecureStream

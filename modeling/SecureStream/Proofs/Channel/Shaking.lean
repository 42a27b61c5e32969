import SecureStream.Proofs.Channel.Advancing
import SecureStream.Proofs.Channel.Passes

/-!
# Handshakes get ahead

The loop of a handshake makes passes, each for what its engine has said last, and comes to an ending
(`Link.shakes_shake`).

* (a) What one pass does, function by function: `Link.made_runTasks`, `Link.pass_fetchOutput`, `Link.pass_bringInput`.
* (b) Whatever is done before the loop, and whatever records follow in the same input, a request that drives a
  handshake consists of such calls (`Link.run_start`, `Link.run_readSecuring`).
* (c) So an engine that is done with input and has used up nothing of it, or that asks for a task and has none, makes
  the request fail; one that asks for output and has none is asked once more (`Channel.handshake_advances`).
-/

namespace SecureStream

namespace Link

open Shaking

variable {E S : Type} [Engine E] {k k' : Link E S} {pool : Pool} {runner : Runner}

/-! ### One pass -/

section

variable [Session S]

theorem made_drainTasks (runner : Runner) (k : Link E S) (count : Nat) :
    ∃ n, Made (Call.tasks n) k (k.drainTasks runner count).2 ∧ (k.drainTasks runner count).1 = count + n := by
  fun_induction drainTasks runner k count with
  | case1 k count htask => exact ⟨0, made_of_push rfl rfl, rfl⟩
  | case2 k count engine htask ih =>
    obtain ⟨n, hmade, hcount⟩ := ih
    have hfirst : Made [.takeTask true] k ({ k with engine := runner.run engine }.log (.takeTask true)) :=
      made_of_push rfl rfl
    have htaken : Made [.takeTask true, .runTask] k
        (({ k with engine := runner.run engine }.log (.takeTask true)).log .runTask) :=
      hfirst.trans (made_of_push rfl rfl)
    exact ⟨n + 1, htaken.trans hmade, by omega⟩

/-- Tasks are run, or there is none.  An engine that has none and still asks for one makes the request fail. -/
theorem made_runTasks (runner : Runner) (k : Link E S) :
    ∃ n, Made (Call.tasks n) k (k.runTasks runner).2 ∧
      ((n = 0 ∧ (k.runTasks runner).2.demand = .task ∧ (k.runTasks runner).1 = .error (.noProgress .task)) ∨
        (k.runTasks runner).1 = .ok (k.runTasks runner).2.demand ∧
          Pass .task (Call.tasks n) (k.runTasks runner).2.demand) := by
  obtain ⟨n, hmade, hcount⟩ := k.made_drainTasks runner 0
  rw [Nat.zero_add] at hcount
  refine ⟨n, ?_⟩
  unfold runTasks
  dsimp only
  split
  · next hstuck => exact ⟨hmade, .inl ⟨hcount ▸ hstuck.1, hstuck.2, rfl⟩⟩
  · next hprogress =>
    refine ⟨⟨hmade.calls_eq, hmade.session_eq⟩, .inr ⟨rfl, ?_⟩⟩
    rcases n with _ | n
    · exact .spared fun hdemand => hprogress ⟨hcount, hdemand⟩
    · exact .ran n

/-- Wrapping nothing: the buffer grows as often as the engine asks for it. -/
theorem made_wrapAll_nil (purpose : Purpose) (hpurpose : purpose ≠ .application) (k : Link E S) (input : Bytes)
    (b : Scratch) (hinput : input = []) :
    ∃ retries room answer, Made (retries ++ [.wrap [] room answer]) k (k.wrapAll purpose input b).2 ∧
      (∀ call ∈ retries, call.IsRetry .wrap) ∧
      ((∃ r b', answer = .ok r ∧ (r.verdict = .ok ∨ r.verdict = .closed) ∧
          (k.wrapAll purpose input b).1 = .ok (b', r.demand) ∧ (b'.bytes = [] → min r.produced room = 0)) ∨
        (∃ e, (k.wrapAll purpose input b).1 = .error e) ∧ (Call.wrap [] room answer).isDone = false) := by
  have hnothing {b : Scratch} {r : Reply} (hempty : (b.store r.output r.produced).bytes = []) :
      min r.produced b.room = 0 := by
    have hsize : (b.store r.output r.produced).size = 0 := congrArg List.length hempty
    rw [Scratch.size_store] at hsize
    rw [Scratch.room_eq]
    omega
  have hbusy {room : Nat} {r : Reply} (hverdict : ¬ (r.verdict = .ok ∨ r.verdict = .closed)) :
      (Call.wrap [] room (.ok r)).isDone = false := decide_eq_false hverdict
  fun_induction wrapAll purpose k input b with
  | case1 k input b e after hwrap =>
    subst hinput
    exact ⟨[], _, _, made_wrap hwrap, List.forall_mem_nil _, .inr ⟨⟨_, rfl⟩, rfl⟩⟩
  | case3 k input b r after hwrap filled hverdict grown hgrow ih =>
    subst hinput
    obtain ⟨retries, room, answer, hmade, hretries, hresult⟩ := ih List.drop_nil
    refine ⟨_ :: retries, room, answer, (made_wrap hwrap).trans hmade.of_note, ?_, hresult⟩
    exact List.forall_mem_cons.2 ⟨⟨rfl, decide_eq_true hverdict⟩, hretries⟩
  | case4 k input b r after hwrap filled hverdict =>
    subst hinput
    exact ⟨[], _, _, made_wrap hwrap, List.forall_mem_nil _, .inl ⟨r, filled, rfl, .inl hverdict, rfl, hnothing⟩⟩
  | case5 k input b r after hwrap hverdict hrest | case6 k input b r after hwrap filled hverdict hrest =>
    subst hinput
    exact absurd (by rw [List.drop_nil]; rfl) hrest
  | case7 => exact absurd ‹purpose = .application› hpurpose
  | case8 k input b r after hwrap filled hverdict =>
    subst hinput
    exact ⟨[], _, _, made_wrap hwrap, List.forall_mem_nil _, .inl ⟨r, filled, rfl, .inr hverdict, rfl, hnothing⟩⟩
  | _ =>
    subst hinput
    refine ⟨[], _, _, made_wrap ‹_›, List.forall_mem_nil _, .inr ⟨⟨_, rfl⟩, hbusy ?_⟩⟩
    rw [‹Reply.verdict _ = _›]
    decide

/-- What the engine asks for when it asks for output: a pass, or the end of the loop. -/
theorem pass_fetchOutput (pool : Pool) (k : Link E S) :
    (∃ calls next, Made calls k (k.fetchOutput pool).2 ∧ (k.fetchOutput pool).1 = .ok next ∧
        Pass .output calls next) ∨
      ∃ calls e, Made calls k (k.fetchOutput pool).2 ∧ (k.fetchOutput pool).1 = .error e ∧
        (∀ call ∈ calls, call.kind = .wrap ∧ call.isStuck = false) ∧ (calls = [] → ∃ b, e = .buffer b) := by
  unfold fetchOutput
  rw [wrapNew_eq_bytes]
  rcases Scratch.ofCapacity? (pool.cap (Engine.largestRecord k.engine)) pool with e | b
  · exact .inr ⟨[], .buffer e, .refl k, rfl, nofun, fun _ => ⟨e, rfl⟩⟩
  · obtain ⟨retries, room, answer, hmade, hretries, ⟨r, b', rfl, hverdict, hresult, hnothing⟩ |
      ⟨⟨e, hresult⟩, hbusy⟩⟩ := made_wrapAll_nil .handshake (by decide) k [] b rfl
    · dsimp only
      rcases hwrap : k.wrapAll .handshake [] b with ⟨e | ⟨filled, demand⟩, after⟩
      · rw [hwrap] at hresult
        cases hresult
      · rw [hwrap] at hmade hresult
        obtain ⟨rfl, rfl⟩ := Prod.mk.inj (Except.ok.inj hresult)
        refine .inl ?_
        dsimp only
        by_cases hempty : filled.bytes = []
        · rw [if_pos (List.isEmpty_iff.2 hempty)]
          refine ⟨_, _, hmade, rfl, ?_⟩
          by_cases hsame : r.demand = .output
          · exact .stuck hretries hverdict (hnothing hempty) hsame
          · exact .silent hretries hverdict (hnothing hempty) hsame
        · rw [if_neg fun h => hempty (List.isEmpty_iff.1 h)]
          have hlast : Made [.enqueue filled.bytes] after (after.enqueue filled.bytes) := made_of_push rfl rfl
          have hsent := hmade.trans hlast
          rw [List.append_assoc] at hsent
          exact ⟨_, _, hsent, rfl, .sent hretries hverdict hempty⟩
    · dsimp only
      rcases hwrap : k.wrapAll .handshake [] b with ⟨e' | ⟨filled, demand⟩, after⟩
      · rw [hwrap] at hmade
        refine .inr ⟨_, e', hmade, rfl, ?_, fun hnil => absurd hnil (by simp)⟩
        exact List.forall_mem_append.2 ⟨fun call hmem => ⟨(hretries call hmem).1, (hretries call hmem).not_isStuck⟩,
          List.forall_mem_singleton.2 ⟨rfl, Call.not_isStuck_of_not_isDone hbusy⟩⟩
      · rw [hwrap] at hresult
        cases hresult

/-- Unwrapping one record: the buffer grows as often as the engine asks for it. -/
theorem made_unwrapStep (k : Link E S) (input : Bytes) (b : Scratch) :
    ∃ retries offered room answer,
      Made (retries ++ [.unwrap offered room answer]) k (k.unwrapStep input b).2 ∧
        (∀ call ∈ retries, call.IsRetry .unwrap) ∧
        ((∃ r left, answer = .ok r ∧ r.verdict = .ok ∧
            ¬ (r.consumed = 0 ∧ (r.demand = .input ∨ r.demand = .none)) ∧
            (k.unwrapStep input b).1 = .ok (some r.demand, left)) ∨
          (∀ next left, (k.unwrapStep input b).1 ≠ .ok (some next, left)) ∧
            ((Call.unwrap offered room answer).isFruitless = true →
              (k.unwrapStep input b).1 = .error (.noProgress .unwrap))) := by
  have hbusy {input : Bytes} {room : Nat} {r : Reply} (hverdict : r.verdict ≠ .ok) :
      (Call.unwrap input room (.ok r)).isFruitless ≠ true := fun h => hverdict (of_decide_eq_true h).1
  fun_induction unwrapStep k input b with
  | case1 k input b e after hunwrap =>
    exact ⟨[], _, _, _, made_unwrap hunwrap, List.forall_mem_nil _,
      .inr ⟨(fun _ _ h => by cases h), fun h => by cases h⟩⟩
  | case2 k input b r after hunwrap hverdict hstuck =>
    exact ⟨[], _, _, _, made_unwrap hunwrap, List.forall_mem_nil _, .inr ⟨(fun _ _ h => by cases h), fun _ => rfl⟩⟩
  | case3 k input b r after hunwrap rest hverdict hprogress =>
    exact ⟨[], _, _, _, made_unwrap hunwrap, List.forall_mem_nil _, .inl ⟨r, rest, rfl, hverdict, hprogress, rfl⟩⟩
  | case6 k input b r after hunwrap rest filled hverdict grown hgrow ih =>
    obtain ⟨retries, offered, room, answer, hmade, hretries, hresult⟩ := ih
    refine ⟨_ :: retries, offered, room, answer, (made_unwrap hunwrap).trans hmade, ?_, hresult⟩
    exact List.forall_mem_cons.2 ⟨⟨rfl, decide_eq_true hverdict⟩, hretries⟩
  | _ =>
    refine ⟨[], _, _, _, made_unwrap ‹_›, List.forall_mem_nil _,
      .inr ⟨(fun _ _ h => by cases h), fun h => absurd h (hbusy ?_)⟩⟩
    rw [‹Reply.verdict _ = _›]
    decide

/-- What the engine asks for when it asks for input: a pass, or the end of the loop. -/
theorem pass_bringInput (pool : Pool) (k : Link E S) (input : Bytes) :
    (∃ calls next left, Made calls k (k.bringInput pool input).2 ∧
        (k.bringInput pool input).1 = .ok (some next, left) ∧
        ∀ demand, demand = .input ∨ demand = .none → Pass demand calls next) ∨
      ∃ (retries : List Call) (last : Option Call), Made (retries ++ last.toList) k (k.bringInput pool input).2 ∧
        (∀ next left, (k.bringInput pool input).1 ≠ .ok (some next, left)) ∧
        (∀ call ∈ retries, call.IsRetry .unwrap) ∧ (∀ call ∈ last, call.kind = .unwrap) ∧
        ∀ call ∈ last, call.isFruitless = true → (k.bringInput pool input).1 = .error (.noProgress .unwrap) := by
  unfold bringInput
  rcases Scratch.ofCapacity? (pool.cap pool.handshakeRoom) pool with e | b
  · exact .inr ⟨[], none, .refl k, nofun, nofun, nofun, nofun⟩
  · obtain ⟨retries, offered, room, answer, hmade, hretries, ⟨r, left, rfl, hverdict, hprogress, hresult⟩ |
      ⟨hends, hfruitless⟩⟩ := k.made_unwrapStep input b
    · exact .inl ⟨_, _, left, hmade, hresult, fun demand hdemand => .opened hdemand hretries hverdict hprogress⟩
    · refine .inr ⟨retries, some _, hmade, hends, hretries, ?_, ?_⟩
      · rintro _ ⟨⟩
        rfl
      · rintro _ ⟨⟩
        exact hfruitless

/-! ### The loop -/

/-- The link has become another by the loop.  When the handshake is completed, the session is secured. -/
def Shakes (said : List Call → Option Demand) (k k' : Link E S) (result : Except ChannelError (Bool × Bytes)) :
    Prop :=
  ∃ calls, Made calls k k' ∧ Loop said k.calls.toList calls result ∧
    ∀ left, result = .ok (true, left) → .moveTo .secured ∈ calls

variable {said : List Call → Option Demand} {demand next : Demand} {result : Except ChannelError (Bool × Bytes)}
  {calls : List Call}

omit [Engine E] in
theorem Shakes.of_ending (hmade : Made calls k k') (hending : Ending said k.calls.toList calls result)
    (hsecured : ∀ left, result = .ok (true, left) → .moveTo .secured ∈ calls) : Shakes said k k' result := by
  have hloop : Loop said k.calls.toList (calls ++ []) result := .stops hending (.inl rfl)
  rw [List.append_nil] at hloop
  exact ⟨calls, hmade, hloop, hsecured⟩

omit [Engine E] in
theorem Shakes.of_note {notice : Notice} (h : Shakes said (k.note notice) k' result) : Shakes said k k' result := by
  obtain ⟨calls, hmade, hrest⟩ := h
  exact ⟨calls, hmade.of_note, hrest⟩

omit [Engine E] in
theorem Shakes.of_pass {after : Link E S} (hmade : Made calls k after) (hsaid : said k.calls.toList = some demand)
    (hpass : Pass demand calls next) (hnext : said after.calls.toList = some next)
    (h : Shakes said after k' result) : Shakes said k k' result := by
  obtain ⟨rest, hmade', hloop, hsecured⟩ := h
  rw [hmade.calls_eq] at hnext hloop
  exact ⟨calls ++ rest, hmade.trans hmade', .goesOn hsaid hpass hnext hloop,
    fun left heq => List.mem_append_right _ (hsecured left heq)⟩

/-- The engine is brought input, and the loop ends. -/
theorem shakes_of_bringInput {input : Bytes} {bring : Except ChannelError (Option Demand × Bytes)}
    (hbring : k.bringInput pool input = (bring, k'))
    (hsaid : said k.calls.toList = some .input ∨ said k.calls.toList = some .none)
    (hends : ∀ next left, bring ≠ .ok (some next, left)) (hresult : ∀ e, bring = .error e → result = .error e)
    (hopen : ∀ left, result ≠ .ok (true, left)) : Shakes said k k' result := by
  rcases k.pass_bringInput pool input with ⟨calls, next, left, -, heq, -⟩ |
    ⟨retries, last, hmade, -, hretries, hkind, hlast⟩
  · rw [hbring] at heq
    exact absurd heq (hends next left)
  · rw [hbring] at hmade hlast
    refine .of_ending hmade (.unopened hsaid hretries hkind fun call hmem hfruitless => ?_) fun left heq => ?_
    · exact hresult _ (hlast call hmem hfruitless)
    · exact absurd heq (hopen left)

theorem shakes_shake {make : EngineMaker E} {x : Scene E S} {all : Bytes} (pool : Pool) (runner : Runner)
    (total : Nat) (k : Link E S) (demand : Demand) (input : Bytes)
    (htold : Moment.Told make runner x all ⟨k, demand, input⟩) :
    Shakes (x.saidBy make runner) k (k.shake pool runner total demand input).2
      (k.shake pool runner total demand input).1 := by
  have hsaid {k : Link E S} {demand : Demand} {input : Bytes}
      (h : Moment.Told make runner x all ⟨k, demand, input⟩) :
      x.saidBy make runner k.calls.toList = some demand := congrArg Scene.said h.replay_eq
  -- along the loop: at the start of every turn the log tells the demand that is met
  fun_induction shake pool runner total k demand input with
  | case1 k input noted =>
    exact .of_ending (made_of_push rfl rfl) (.secured (hsaid htold)) fun _ _ => List.mem_singleton.2 rfl
  | case2 k input e after noted htasks =>
    have hafter := htold.course (Moment.Acts.head (.note _ _) (noted.acts_runTasks_demand runner .task input)).course
    obtain ⟨n, hmade, ⟨rfl, hdemand, hresult⟩ | ⟨hresult, -⟩⟩ := noted.made_runTasks runner
    · rw [htasks] at hmade hdemand hresult hafter
      obtain rfl : e = .noProgress .task := Except.error.inj hresult
      have hstill := hsaid hafter
      rw [hmade.of_note.calls_eq, hdemand] at hstill
      exact .of_ending hmade.of_note (.taskless (hsaid htold) hstill rfl) fun _ h => by cases h
    · rw [htasks] at hresult
      cases hresult
  | case3 k input next after noted htasks ih =>
    have hafter := htold.course (Moment.Acts.head (.note _ _) (noted.acts_runTasks_demand runner .task input)).course
    obtain ⟨n, hmade, ⟨-, -, hresult⟩ | ⟨hresult, hpass⟩⟩ := noted.made_runTasks runner
    · rw [htasks] at hresult
      cases hresult
    · rw [htasks] at hmade hpass hafter hresult
      obtain rfl : next = after.demand := Except.ok.inj hresult
      exact .of_pass hmade.of_note (hsaid htold) hpass (hsaid hafter) (ih hafter)
  | case4 k input e after noted hfetch =>
    rcases noted.pass_fetchOutput pool with ⟨calls, next, -, hresult, -⟩ |
      ⟨calls, e', hmade, hresult, hcalls, hnone⟩
    · rw [hfetch] at hresult
      cases hresult
    · rw [hfetch] at hmade hresult
      obtain rfl : e = e' := Except.error.inj hresult
      exact .of_ending hmade.of_note (.unsent (hsaid htold) hcalls hnone rfl) fun _ h => by cases h
  | case5 k input next after noted hfetch ih =>
    obtain ⟨said', hacts, hlast⟩ := noted.acts_fetchOutput runner pool .output input
    have hafter := htold.course (Moment.Acts.head (.note _ _) hacts).course
    rw [hfetch] at hafter hlast
    obtain rfl := hlast next rfl
    rcases noted.pass_fetchOutput pool with ⟨calls, next, hmade, hresult, hpass⟩ | ⟨calls, e, -, hresult, -⟩
    · rw [hfetch] at hmade hresult
      cases hresult
      exact .of_pass hmade.of_note (hsaid htold) hpass (hsaid hafter) (ih hafter)
    · rw [hfetch] at hresult
      cases hresult
  | case6 k input e after noted hbring =>
    have hfirst := hsaid htold
    refine .of_note (shakes_of_bringInput hbring (.inl hfirst) (fun _ _ h => by cases h) ?_ fun _ h => by cases h)
    rintro _ ⟨⟩
    rfl
  | case9 k input e after noted hbring =>
    have hfirst := hsaid htold
    refine .of_note (shakes_of_bringInput hbring (.inr hfirst) (fun _ _ h => by cases h) ?_ fun _ h => by cases h)
    rintro _ ⟨⟩
    rfl
  | case7 k input rest after noted hbring =>
    have hfirst := hsaid htold
    exact .of_note (shakes_of_bringInput hbring (.inl hfirst) (fun _ _ h => by cases h)
      (fun _ h => by cases h) fun _ h => by cases h)
  | case10 k input rest after noted hbring =>
    have hfirst := hsaid htold
    exact .of_note (shakes_of_bringInput hbring (.inr hfirst) (fun _ _ h => by cases h)
      (fun _ h => by cases h) fun _ h => by cases h)
  | case8 k input next rest after noted hbring ih | case11 k input next rest after noted hbring ih =>
    obtain ⟨said', left, hacts, hresult⟩ := noted.acts_bringInput runner pool _ input
    have hafter := htold.course (Moment.Acts.head (.note _ _) hacts).course
    rw [hbring] at hafter hresult
    obtain ⟨rfl, hlast⟩ := hresult (some next) rest rfl
    obtain rfl := hlast next rfl
    rcases noted.pass_bringInput pool input with ⟨calls, next', left', hmade, heq, hpass⟩ |
      ⟨retries, last, -, hends, -⟩
    · rw [hbring] at hmade heq
      cases heq
      exact .of_pass hmade.of_note (hsaid htold) (hpass _ (by simp)) (hsaid hafter) (ih hafter)
    · exact absurd (congrArg Prod.fst hbring) (hends _ rest)

/-! ### Requests -/

omit [Engine E] in
/-- Calls before the loop, the loop, and records behind it. -/
theorem Shakes.run {α : Type} {start last : Link E S} {opening records : List Call} {result' : Except ChannelError α}
    (h : Shakes said start last result) (hopening : Made opening k start)
    (hkinds : ∀ call ∈ opening, call.kind ∈ openingKinds) (hrecords : Made records last k')
    (hnone : records = [] ∨ ∃ left, result = .ok (true, left))
    (hresult : ∀ e, result = .error e → result' = .error e) :
    ∃ calls, Made calls k k' ∧ Run said k.calls.toList calls result' := by
  obtain ⟨calls, hmade, hloop, hsecured⟩ := h
  rw [hopening.calls_eq] at hloop
  refine ⟨opening ++ (calls ++ records), hopening.trans (hmade.trans hrecords), .shaken hkinds ?_⟩
  have hall : Loop said (k.calls.toList ++ opening) (calls ++ records) result := by
    rcases hnone with rfl | ⟨left, heq⟩
    · rwa [List.append_nil]
    · exact hloop.append (hsecured left heq) records
  exact hall.withResult hresult

variable {make : EngineMaker E} {x : Scene E S} {input all : Bytes}

omit [Engine E] in
theorem exists_entering (k : Link E S) :
    ∃ entering, Made entering k k.enterHandshake ∧ ∀ call ∈ entering, call.kind ∈ openingKinds :=
  k.makes_enterHandshake.mono (by decide)

/-- The loop of a handshake that has been entered. -/
theorem shakes_entered (pool : Pool) (total : Nat) (k : Link E S)
    (htold : Moment.Told make runner x all ⟨k, k.demand, input⟩) (hstate : k.state ≠ .secured) :
    Shakes (x.saidBy make runner) k.enterHandshake
      (k.enterHandshake.shake pool runner total k.enterHandshake.demand input).2
      (k.enterHandshake.shake pool runner total k.enterHandshake.demand input).1 := by
  have hentered := htold.course (k.course_enterHandshake runner k.demand input hstate)
  rw [← demand_enterHandshake] at hentered
  exact shakes_shake pool runner total _ _ _ hentered

theorem run_start (pool : Pool) (k : Link E S) (htold : Moment.Told make runner x [] ⟨k, k.demand, []⟩)
    (hstate : k.state ≠ .secured) :
    ∃ calls, Made calls k (k.start pool runner).2 ∧
      Run (x.saidBy make runner) k.calls.toList calls (k.start pool runner).1 := by
  have hstarting : ∀ call ∈ [Call.startHandshake], call.kind ∈ openingKinds :=
    List.forall_mem_singleton.2 (by decide)
  unfold start
  rw [if_neg hstate]
  rcases hstarted : k.startHandshake with ⟨e | ⟨⟩, after⟩
  · exact ⟨_, made_startHandshake hstarted, .turnedDown hstarting ⟨_, rfl⟩⟩
  · have hafter := htold.course (Moment.Act.startHandshake hstarted).acts.course
    have hsame : k.startHandshake.2 = after := congrArg Prod.snd hstarted
    have hopen : after.state ≠ .secured := by
      rw [← hsame]
      exact hstate
    obtain ⟨entering, hentering, hkinds⟩ := after.exists_entering
    have hopening := (made_startHandshake hstarted).trans hentering
    have hall := List.forall_mem_append.2 ⟨hstarting, hkinds⟩
    have hshakes := shakes_entered pool 0 after hafter hopen
    dsimp only
    rcases hshook : after.enterHandshake.shake pool runner 0 after.enterHandshake.demand [] with
      ⟨e | ⟨_ | _, left⟩, last⟩
    · rw [hshook] at hshakes
      exact hshakes.run hopening hall (.refl last) (.inl rfl) fun _ heq => by rw [Except.error.inj heq]
    · rw [hshook] at hshakes
      exact hshakes.run hopening hall (.refl last) (.inl rfl) nofun
    · rw [hshook] at hshakes
      exact hshakes.run hopening hall (.refl last) (.inl rfl) nofun

theorem run_readSecuring (pool : Pool) (k : Link E S) (htold : Moment.Told make runner x input ⟨k, k.demand, input⟩)
    (hstate : k.state ≠ .secured) :
    ∃ calls, Made calls k (k.readSecuring pool runner input).2 ∧
      Run (x.saidBy make runner) k.calls.toList calls (k.readSecuring pool runner input).1 := by
  obtain ⟨entering, hentering, hkinds⟩ := k.exists_entering
  have hshakes := shakes_entered pool input.length k htold hstate
  unfold readSecuring
  dsimp only
  rcases hshook : k.enterHandshake.shake pool runner input.length k.enterHandshake.demand input with
    ⟨e | ⟨_ | _, left⟩, last⟩
  · rw [hshook] at hshakes
    exact hshakes.run hentering hkinds (.refl last) (.inl rfl)
      fun _ heq => by rw [Except.error.inj heq]
  · rw [hshook] at hshakes
    exact hshakes.run hentering hkinds (.refl last) (.inl rfl) nofun
  · rw [hshook] at hshakes
    obtain ⟨records, hrecords, -⟩ := last.run_unwrapRecords pool left
    dsimp only
    rcases hunwrapped : last.unwrapRecords pool left with ⟨e | ⟨o, rest⟩, final⟩
    · rw [hunwrapped] at hrecords
      exact hshakes.run hentering hkinds hrecords (.inr ⟨left, rfl⟩) nofun
    · rw [hunwrapped] at hrecords
      cases o with
      | _ => exact hshakes.run hentering hkinds hrecords (.inr ⟨left, rfl⟩) nofun

end

end Link

namespace Channel

open Shaking

variable {E S : Type} [Engine E] [Session S] (c : Channel E) (make : EngineMaker E) (s : S)

/-- A turn that drives a handshake gets ahead. -/
structure ShakesAhead {α : Type} (turn : Turn E S α) : Prop where
  run : Run ((c.scene s).saidBy make c.runner) [] turn.calls.toList turn.result
  /-- Input of which nothing has been used up is not brought once more. -/
  fruitless : ∀ before call after, turn.calls.toList = before ++ call :: after → .moveTo .secured ∉ before →
    call.isFruitless = true → after = [] ∧ turn.result = .error (.noProgress .unwrap)
  /-- An engine that has no task is not asked for one once more. -/
  taskless : ∀ before after, turn.calls.toList = before ++ .takeTask false :: after → .moveTo .secured ∉ before →
    before.getLast? ≠ some .runTask →
    (c.scene s).saidBy make c.runner (before ++ [.takeTask false]) = some .task →
    after = [] ∧ turn.result = .error (.noProgress .task)
  /-- An engine that has no output is asked for it once more, unless a piece is sent that earlier calls have left. -/
  stuck : ∀ before call after, turn.calls.toList = before ++ call :: after → .moveTo .secured ∉ before →
    call.isStuck = true → (∃ next rest, after = next :: rest ∧ (next.kind = .wrap ∨ next.kind = .enqueue)) ∨
      after = [] ∧ ∃ e, turn.result = .error (.buffer e)

theorem shakesAhead_of_run {α : Type} {turn : Turn E S α}
    (h : Run ((c.scene s).saidBy make c.runner) [] turn.calls.toList turn.result) : c.ShakesAhead make s turn where
  run := h
  fruitless _ _ _ hsplit hopen hfruitless := h.last_of_isFruitless hsplit hopen hfruitless
  taskless _ _ hsplit hopen hnone hstill := h.taskless hsplit hopen hnone hstill
  stuck _ _ _ hsplit hopen hstuck := h.next_of_isStuck hsplit hopen hstuck

/-- A request is served by a link that has only made the engine, if anything, and whose log tells so. -/
private theorem run_serve {α : Type} (request : Link E S → Turn E S α) (input : Bytes)
    (hstate : Session.state s ≠ .secured)
    (hrequest : ∀ k : Link E S, Moment.Told make c.runner (c.scene s) input ⟨k, k.demand, input⟩ →
      k.state ≠ .secured → ∃ calls, (request k).calls.toList = k.calls.toList ++ calls ∧
        Run ((c.scene s).saidBy make c.runner) k.calls.toList calls (request k).result) :
    Run ((c.scene s).saidBy make c.runner) [] (c.serve make s request).calls.toList
      (c.serve make s request).result := by
  rcases c.serve_told make s with ⟨e, hfails⟩ | ⟨k, ⟨made, hmade, hmakes⟩, -, htold, hserve⟩
  · rw [hfails]
    exact .turnedDown (List.forall_mem_singleton.2 (by simp [openingKinds, Call.kind])) ⟨_, rfl⟩
  · have hopen : k.state ≠ .secured := by
      rw [Link.state, hmade.session_eq, Call.onAll_of_kinds s hmakes (by decide)]
      exact hstate
    have hkinds : prepareKinds ⊆ openingKinds := by decide
    obtain ⟨calls, hcalls, hrun⟩ := hrequest k (htold input) hopen
    rw [hmade.calls_eq] at hcalls hrun
    rw [hserve, hcalls]
    exact .prepend (fun call hmem => hkinds (hmakes call hmem)) hrun

/-- Whatever its engine answers, a request that drives a handshake gets ahead with every pass of the loop, except for
passes that are stuck: an engine that asks for output, has none and asks for output once more is given the same call
again. -/
theorem handshake_advances (hstate : Session.state s ≠ .secured) :
    c.ShakesAhead make s (c.start make s) ∧ ∀ input, c.ShakesAhead make s (c.receive make s input) := by
  refine ⟨c.shakesAhead_of_run make s ?_, fun input => c.shakesAhead_of_run make s ?_⟩
  · refine c.run_serve make s _ [] hstate fun k htold hopen => ?_
    obtain ⟨calls, hmade, hrun⟩ := k.run_start c.pool htold hopen
    exact ⟨calls, hmade.calls_eq, hrun⟩
  · obtain ⟨request, hreceive, hrequest⟩ := c.receive_reads make s input
    rw [hreceive]
    refine c.run_serve make s _ (c.pending ++ input) hstate fun k htold hopen => ?_
    rcases hrequest k with ⟨e, hturn⟩ | ⟨pending, backlog, result, hturn, rfl, herror, -⟩
    · rw [hturn]
      exact ⟨[], (List.append_nil _).symm, .turnedDown nofun ⟨e, rfl⟩⟩
    · have hread : k.read c.pool c.runner (c.pending ++ input) =
          k.readSecuring c.pool c.runner (c.pending ++ input) := if_neg hopen
      obtain ⟨calls, hmade, hrun⟩ := k.run_readSecuring c.pool htold hopen
      rw [← hread] at hmade hrun
      rw [hturn]
      exact ⟨calls, hmade.calls_eq, hrun.withResult herror⟩

/-- A piece is sent and a byte is used up, and then a fruitless call makes the read fail. -/
theorem handshake_advances_to_failure :
    let script : List ScriptStep :=
      [.wrap ⟨.ok, .input, 0, 1, [7]⟩ false, .unwrap ⟨.ok, .input, 1, 0, []⟩, .unwrap ⟨.ok, .none, 0, 0, []⟩]
    let make : EngineMaker Playback := fun _ => .ok (.start .output script 256)
    let s := Journal.connected false .unknown
    let turn := (closed (Pool.ofSizing Sizing.usual) .onTheSpot).receive make s [9, 9]
    Session.state s ≠ .secured ∧ turn.result = .error (.noProgress .unwrap) ∧
      turn.calls.toList.map Call.kind =
        [.create, .setSide, .setCertificatePolicy, .moveTo .securing, .wrap, .enqueue, .unwrap, .unwrap] := by
  intro script make s turn
  obtain ⟨-, hreceive⟩ :=
    (closed (Pool.ofSizing Sizing.usual) .onTheSpot).handshake_advances make s (by decide : s.state ≠ .secured)
  have hlast : turn.calls.toList.getLast?.any Call.isFruitless = true := by decide +kernel
  have hkinds : turn.calls.toList.map Call.kind =
      [.create, .setSide, .setCertificatePolicy, .moveTo .securing, .wrap, .enqueue, .unwrap, .unwrap] := by
    decide +kernel
  obtain ⟨call, hcall, hfruitless⟩ := (Option.any_eq_true _ _).1 hlast
  obtain ⟨before, hsplit⟩ := List.getLast?_eq_some_iff.1 hcall
  have hopen : Call.moveTo .secured ∉ turn.calls.toList := by
    intro hmem
    have hkind : CallKind.moveTo .secured ∈ turn.calls.toList.map Call.kind := List.mem_map_of_mem hmem
    rw [hkinds] at hkind
    cases (by decide : CallKind.moveTo .secured ∉ _) hkind
  have hbefore : .moveTo .secured ∉ before := fun hmem => hopen (hsplit ▸ List.mem_append_left _ hmem)
  obtain ⟨-, hresult⟩ := (hreceive [9, 9]).fruitless before call [] hsplit hbefore hfruitless
  exact ⟨by decide, hresult, hkinds⟩

/-- An engine that asks for output, has none and asks for output once more is given the same call again.  The request
does not fail. -/
theorem handshake_past_stuck_call :
    let script : List ScriptStep := [.wrap ⟨.ok, .output, 0, 0, []⟩ false, .wrap ⟨.ok, .finished, 0, 0, []⟩ false]
    let make : EngineMaker Playback := fun _ => .ok (.start .output script 256)
    let turn := (closed (Pool.ofSizing Sizing.usual) .onTheSpot).start make (Journal.connected false .unknown)
    turn.result = .ok (.secured 0) ∧ turn.calls.toList.any Call.isStuck = true ∧
      turn.calls.toList.map Call.kind =
        [.create, .setSide, .setCertificatePolicy, .startHandshake, .moveTo .securing, .wrap, .wrap,
          .moveTo .secured] := by
  intro script make turn
  have hresult : turn.result = .ok (.secured 0) := Turn.result_of_toOption (by decide +kernel)
  refine ⟨hresult, ?_, ?_⟩ <;> decide +kernel

end Channel

end SecureStream

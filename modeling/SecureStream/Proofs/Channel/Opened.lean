import SecureStream.Engine.Playback
import SecureStream.Proofs.Channel.Gate
import SecureStream.Proofs.Channel.Keeping

/-!
# What is opened is handed over

When an engine counts the bytes that it writes, and writes none unless it is done (`Reply.IsExact`), the
messages that a link hands over are what the engine has opened while the session was secured: each output that
is not empty is one message, and there are no others (`Link.opens_read`).

* (a) Along a log, `Call.opened` is put together from parts (`Call.opened_append`).
* (b) The loop over the records begins with an empty buffer, and so does every further call in it: an exact
  reply that asks for a larger buffer has written nothing (`Link.opens_unwrapAll`).
* (c) A script whose answers are exact stays so (`Playback.keeps_exact`), and gives exact replies only
  (`Playback.exact_answer`).
-/

namespace SecureStream

/-! ### Exact replies -/

/-- A reply counts what was written, and nothing is written unless the engine is done. -/
structure Reply.IsExact (r : Reply) : Prop where
  produced_eq : r.produced = r.output.length
  output_eq : r.verdict ≠ .ok → r.output = []

namespace Call

/-- What a call has opened: the output of an engine that is done with a record, unless it is empty. -/
def opened? : Call → Option Bytes
  | unwrap _ _ (.ok r) => if r.verdict = .ok ∧ r.output ≠ [] then some r.output else none
  | _ => none

/-- What calls have opened while the journal was secured. -/
def opened (j : Journal) : List Call → List Bytes
  | [] => []
  | call :: calls => (if j.state = .secured then call.opened?.toList else []) ++ opened (call.on j) calls

theorem opened_append (j : Journal) (a b : List Call) :
    opened j (a ++ b) = opened j a ++ opened (onAll j a) b := by
  induction a generalizing j with
  | nil => rfl
  | cons call a ih =>
    show _ ++ opened (call.on j) (a ++ b) = (_ ++ opened (call.on j) a) ++ opened (onAll (call.on j) a) b
    rw [ih, List.append_assoc]

/-- Calls of these kinds have opened nothing. -/
theorem opened_of_kinds {kinds : List CallKind} {calls : List Call} (j : Journal)
    (h : ∀ call ∈ calls, call.kind ∈ kinds) (hkinds : .unwrap ∉ kinds) : opened j calls = [] := by
  induction calls generalizing j with
  | nil => rfl
  | cons call calls ih =>
    have hnone : call.opened? = none := by
      cases call with
      | unwrap => exact absurd (h _ List.mem_cons_self) hkinds
      | _ => rfl
    show (if j.state = .secured then call.opened?.toList else []) ++ opened (call.on j) calls = []
    rw [ih _ fun c hc => h c (List.mem_cons_of_mem _ hc), hnone]
    split <;> rfl

/-- Nothing counts as opened as long as the journal is not secured. -/
theorem opened_of_unsecured {kinds : List CallKind} {calls : List Call} {j : Journal}
    (h : ∀ call ∈ calls, call.kind ∈ kinds) (hkinds : .moveTo .secured ∉ kinds) (hstate : j.state ≠ .secured) :
    opened j calls = [] := by
  induction calls generalizing j with
  | nil => rfl
  | cons call calls ih =>
    have hafter : (call.on j).state ≠ .secured := by
      cases call with
      | moveTo state =>
        rintro rfl
        exact hkinds (h _ List.mem_cons_self)
      | _ => exact hstate
    show (if j.state = .secured then call.opened?.toList else []) ++ opened (call.on j) calls = []
    rw [if_neg hstate, ih (fun c hc => h c (List.mem_cons_of_mem _ hc)) hafter]
    rfl

/-- The reply of an unwrapping is exact, and its output fits into the space that it was given. -/
def IsExact : Call → Prop
  | unwrap _ room (.ok r) => r.IsExact ∧ r.output.length ≤ room
  | _ => True

end Call

/-! ### Links -/

namespace Link

variable {E : Type} [Engine E] {k k' k'' : Link E Journal}

/-- All replies in the log of the link are exact. -/
def IsExact (k : Link E Journal) : Prop := ∀ call ∈ k.calls.toList, call.IsExact

/-- The link has become another with calls that hand over what they have opened. -/
def Opens (k k' : Link E Journal) : Prop :=
  ∃ calls, Made calls k k' ∧ calls.filterMap Call.delivered? = Call.opened k.session calls

omit [Engine E] in
theorem Opens.refl (k : Link E Journal) : Opens k k := ⟨[], ⟨(List.append_nil _).symm, rfl⟩, rfl⟩

omit [Engine E] in
theorem Opens.trans (h : Opens k k') (h' : Opens k' k'') : Opens k k'' := by
  obtain ⟨a, hmade, ha⟩ := h
  obtain ⟨b, hmade', hb⟩ := h'
  refine ⟨a ++ b, hmade.trans hmade', ?_⟩
  rw [List.filterMap_append, Call.opened_append, ha, hb, hmade.session_eq]

omit [Engine E] in
theorem Makes.opens {kinds : List CallKind} (h : Makes kinds k k') (hdeliver : .deliver ∉ kinds)
    (hunwrap : .unwrap ∉ kinds) : Opens k k' := by
  obtain ⟨calls, hmade, hcalls⟩ := h
  refine ⟨calls, hmade, ?_⟩
  rw [Call.filterMap_of_kinds Call.delivered?_of_kind hcalls hdeliver, Call.opened_of_kinds _ hcalls hunwrap]

omit [Engine E] in
theorem Makes.opens_of_unsecured {kinds : List CallKind} (h : Makes kinds k k') (hdeliver : .deliver ∉ kinds)
    (hsecured : .moveTo .secured ∉ kinds) (hstate : k.session.state ≠ .secured) : Opens k k' := by
  obtain ⟨calls, hmade, hcalls⟩ := h
  refine ⟨calls, hmade, ?_⟩
  rw [Call.filterMap_of_kinds Call.delivered?_of_kind hcalls hdeliver,
    Call.opened_of_unsecured hcalls hsecured hstate]

omit [Engine E] in
/-- What a link has logged stays in its log. -/
theorem IsExact.of_gates (h : k'.IsExact) (hgates : Gates k k') : k.IsExact := by
  obtain ⟨calls, hmade, -⟩ := hgates
  intro call hmem
  refine h call ?_
  rw [hmade.calls_eq]
  exact List.mem_append_left _ hmem

/-- An unwrapping that opens nothing. -/
theorem opens_unwrap {input : Bytes} {room : Nat} {answer : Except EngineError Reply}
    (h : k.unwrap input room = (answer, k')) (hnone : (Call.unwrap input room answer).opened? = none) :
    Opens k k' := by
  refine ⟨_, made_unwrap h, ?_⟩
  show [] = (if k.session.state = .secured then (Call.unwrap input room answer).opened?.toList else []) ++ []
  rw [hnone]
  split <;> rfl

omit [Engine E] in
/-- A record that is opened into an empty buffer is what the buffer holds then. -/
private theorem bytes_of_exact {b : Scratch} {input : Bytes} {r : Reply} (hempty : b.bytes = [])
    (hexact : (Call.unwrap input b.room (.ok r)).IsExact) : (b.store r.output r.produced).bytes = r.output := by
  obtain ⟨hreply, hfits⟩ := hexact
  rw [hreply.produced_eq, Scratch.bytes_store hfits, hempty, List.nil_append]

theorem exact_of_unwrap {input : Bytes} {room : Nat} {answer : Except EngineError Reply}
    (h : k.unwrap input room = (answer, k')) (hexact : k'.IsExact) :
    (Call.unwrap input room answer).IsExact := by
  cases h
  exact hexact _ (by simp [log])

/-- The unwrapping of a record into an empty buffer, and what is handed over of it. -/
theorem opens_handOver {input : Bytes} {b : Scratch} {r : Reply} (h : k.unwrap input b.room = (.ok r, k'))
    (hverdict : r.verdict = .ok) (hstate : k.session.state = .secured) (hempty : b.bytes = [])
    (hexact : k'.IsExact) : Opens k (k'.handOver r.consumed (b.store r.output r.produced)) := by
  have hbytes := bytes_of_exact hempty (exact_of_unwrap h hexact)
  refine ⟨_, (made_unwrap h).trans (k'.made_handOver r.consumed (b.store r.output r.produced)), ?_⟩
  rw [hbytes]
  by_cases houtput : r.output = [] <;> simp [List.filterMap_cons, Call.opened, Call.opened?, Call.delivered?,
    Call.on, hstate, hverdict, houtput]

/-- The loop over the records of an open channel. -/
theorem opens_unwrapAll (pool : Pool) (k : Link E Journal) (input : Bytes) (b : Scratch) (n : Nat)
    (hstate : k.session.state = .secured) (hempty : b.bytes = [])
    (hexact : (k.unwrapAll pool input b n).2.IsExact) : Opens k (k.unwrapAll pool input b n).2 := by
  -- the engine is called without the session
  have hsame : ∀ {k after : Link E Journal} {input : Bytes} {room : Nat} {answer : Except EngineError Reply},
      k.unwrap input room = (answer, after) → after.session = k.session := by
    intro k after input room answer hunwrap
    cases hunwrap
    rfl
  -- an engine that is not done with the record has opened nothing
  have hnone : ∀ {input : Bytes} {room : Nat} {r : Reply}, r.verdict ≠ .ok →
      (Call.unwrap input room (.ok r)).opened? = none := fun h => if_neg fun hopened => h hopened.1
  fun_induction unwrapAll pool k input b n with
  | case1 k input b n e after hunwrap => exact opens_unwrap hunwrap rfl
  | case2 k input b n r after hunwrap filled hverdict hstuck =>
    have hbytes : filled.bytes = r.output := bytes_of_exact hempty (exact_of_unwrap hunwrap hexact)
    have houtput : r.output = [] := by rw [← hbytes, Scratch.isEmpty_iff.1 hstuck.1]
    exact opens_unwrap hunwrap (if_neg fun hopened => hopened.2 houtput)
  | case3 k input b n r after hunwrap rest filled hverdict hprogress served hrest =>
    have hafter : after.IsExact := hexact.of_gates (after.gates_handOver r.consumed filled ?_)
    · exact opens_handOver hunwrap hverdict hstate hempty hafter
    · rw [hsame hunwrap, hstate]
  | case4 k input b n r after hunwrap rest filled hverdict hprogress served hrest ih =>
    have hafterState : after.session.state = .secured := by rw [hsame hunwrap, hstate]
    have hservedState : served.session.state = .secured := by rw [after.state_handOver, hafterState]
    have hserved : served.IsExact := hexact.of_gates (served.gates_unwrapAll pool rest filled.clear _ hservedState)
    have hafter : after.IsExact := hserved.of_gates (after.gates_handOver r.consumed filled hafterState)
    exact (opens_handOver hunwrap hverdict hstate hempty hafter).trans (ih hservedState rfl hexact)
  | case5 k input b n r after hunwrap rest hverdict =>
    have hnoted : Makes [] after (after.note (.recordRetained rest.length)) := makes_note ..
    have hopens : Opens k after := opens_unwrap hunwrap (hnone (by rw [hverdict]; decide))
    exact hopens.trans (hnoted.opens (by simp) (by simp))
  | case7 k input b n r after hunwrap rest filled hverdict grown hgrow ih =>
    have hafterState : after.session.state = .secured := by rw [hsame hunwrap, hstate]
    have hafter : after.IsExact := hexact.of_gates (after.gates_unwrapAll pool rest grown n hafterState)
    have hreply := exact_of_unwrap hunwrap hafter
    have hopen : r.verdict ≠ .ok := by rw [hverdict]; decide
    have hgrown : grown.bytes = [] := by
      have hbytes : filled.bytes = r.output := bytes_of_exact hempty hreply
      rw [Scratch.bytes, (Scratch.eq_of_grow hgrow).1, ← Scratch.bytes, hbytes, hreply.1.output_eq hopen]
    exact (opens_unwrap hunwrap (hnone hopen)).trans (ih hafterState hgrown hexact)
  | case8 k input b n r after hunwrap hverdict hopen e last hanswer
  | case9 k input b n r after hunwrap rest hverdict hopen last hanswer =>
    have hclosed := after.makes_answerClose pool r.demand
    rw [hanswer] at hclosed
    have hopens : Opens k after := opens_unwrap hunwrap (hnone (by rw [hverdict]; decide))
    exact hopens.trans (hclosed.opens (by simp) (by simp))
  | _ => exact opens_unwrap ‹_› (hnone (by rw [‹Reply.verdict _ = _›]; decide))

theorem opens_unwrapRecords (pool : Pool) (k : Link E Journal) (input : Bytes)
    (hstate : k.session.state = .secured) (hexact : (k.unwrapRecords pool input).2.IsExact) :
    Opens k (k.unwrapRecords pool input).2 := by
  unfold unwrapRecords at hexact ⊢
  by_cases hinput : input.isEmpty
  · rw [if_pos hinput]
    exact .refl k
  · rw [if_neg hinput] at hexact ⊢
    rcases hmade : Scratch.ofCapacity? (pool.plaintextRoom input.length) pool with e | b
    · exact .refl k
    · rw [hmade] at hexact
      exact opens_unwrapAll pool k input b 0 hstate (Scratch.bytes_of_ofCapacity? hmade) hexact

/-- A handshake opens nothing: the journal is secured behind the last of its calls. -/
theorem opens_shake (pool : Pool) (runner : Runner) (k : Link E Journal) (total : Nat) (demand : Demand)
    (input : Bytes) (hstate : k.session.state ≠ .secured) :
    Opens k (k.shake pool runner total demand input).2 := by
  rcases k.shake_cases pool runner total demand input with ⟨hmakes, -⟩ | ⟨last, hmakes, hmade, -⟩
  · exact hmakes.opens_of_unsecured (by decide) (by decide) hstate
  · have hsecures : Makes [.moveTo .secured] last (k.shake pool runner total demand input).2 :=
      hmade.makes (by simp [Call.kind])
    exact (hmakes.opens_of_unsecured (by decide) (by decide) hstate).trans
      (hsecures.opens (by decide) (by decide))

omit [Engine E] in
theorem unsecured_enterHandshake (k : Link E Journal) (hstate : k.session.state ≠ .secured) :
    k.enterHandshake.session.state ≠ .secured := by
  unfold enterHandshake
  split
  · exact hstate
  · nofun

theorem opens_read (k : Link E Journal) (pool : Pool) (runner : Runner) (input : Bytes)
    (hexact : (k.read pool runner input).2.IsExact) : Opens k (k.read pool runner input).2 := by
  unfold read at hexact ⊢
  split
  · next hstate =>
    rw [if_pos hstate] at hexact
    exact k.opens_unwrapRecords pool input hstate hexact
  · next hstate =>
    rw [if_neg hstate] at hexact
    have hentered : Opens k k.enterHandshake := k.makes_enterHandshake.opens (by simp) (by simp)
    have hshook := k.enterHandshake.opens_shake pool runner input.length k.enterHandshake.demand input
      (k.unsecured_enterHandshake hstate)
    unfold readSecuring at hexact ⊢
    dsimp only at hexact ⊢
    rcases hshake : k.enterHandshake.shake pool runner input.length k.enterHandshake.demand input with
      ⟨e | ⟨_ | _, left⟩, after⟩
    · rw [hshake] at hshook
      exact hentered.trans hshook
    · rw [hshake] at hshook
      exact hentered.trans hshook
    · rw [hshake] at hshook hexact
      have hrecords := after.opens_unwrapRecords pool left (secured_of_shake hshake)
      dsimp only at hexact ⊢
      rcases hunwrapped : after.unwrapRecords pool left with ⟨e | ⟨o, last⟩, final⟩
      · rw [hunwrapped] at hrecords hexact
        exact (hentered.trans hshook).trans (hrecords hexact)
      · rw [hunwrapped] at hrecords hexact
        cases o with
        | _ => exact (hentered.trans hshook).trans (hrecords hexact)

end Link

/-! ### Requests -/

/-- A read hands over what its engine has opened, if all replies are exact. -/
theorem Channel.delivered_receive {E : Type} [Engine E] (c : Channel E) (make : EngineMaker E) (s : Journal)
    (input : Bytes) (hexact : ∀ call ∈ (c.receive make s input).calls.toList, call.IsExact) :
    (c.receive make s input).calls.toList.filterMap Call.delivered? =
      Call.opened s (c.receive make s input).calls.toList := by
  obtain ⟨request, hreceive, hrequest⟩ := c.receive_reads make s input
  rw [hreceive] at hexact ⊢
  rcases c.serve_makes make s with ⟨e, hfails⟩ | ⟨k, hmakes, -, hserve⟩
  · rw [hfails]
    show [] = (if s.state = .secured then [] else []) ++ []
    split <;> rfl
  · rw [hserve] at hexact ⊢
    have hmade := hmakes.opens (by decide) (by decide)
    have hopens : ∃ k', Link.Opens k k' ∧ (request k).calls = k'.calls := by
      rcases hrequest k with ⟨e, hturn⟩ | ⟨pending, backlog, result, hturn, -⟩
      · exact ⟨k, .refl k, by rw [hturn]; rfl⟩
      · rw [hturn] at hexact ⊢
        exact ⟨_, k.opens_read c.pool c.runner pending hexact, rfl⟩
    obtain ⟨k', hopens, hcalls⟩ := hopens
    obtain ⟨calls, hall, hopened⟩ := hmade.trans hopens
    have hlist : k'.calls.toList = calls := hall.calls_eq
    rw [hcalls, hlist]
    exact hopened

/-! ### Scripts -/

namespace Playback

/-- All answers to unwrapping in the script are exact. -/
def IsExact (p : Playback) : Prop := ∀ reply, .unwrap reply ∈ p.steps → reply.IsExact

theorem IsExact.of_subset {p p' : Playback} (h : p.IsExact) (hsteps : p'.steps ⊆ p.steps) : p'.IsExact :=
  fun reply hmem => h reply (hsteps hmem)

theorem wrap_subset (p : Playback) (room : Nat) : (p.wrap room).2.steps ⊆ p.steps := by
  unfold wrap
  split
  · next heq =>
    rw [steps_answer, heq]
    exact List.subset_cons_self ..
  · exact List.Subset.refl _
  · exact List.Subset.refl _

theorem unwrap_subset (p : Playback) (room : Nat) : (p.unwrap room).2.steps ⊆ p.steps := by
  unfold unwrap
  split
  · next heq =>
    rw [steps_answer, heq]
    exact List.subset_cons_self ..
  · exact List.Subset.refl _
  · exact List.Subset.refl _

theorem takeTask?_subset {p p' : Playback} (h : p.takeTask? = some p') : p'.steps ⊆ p.steps := by
  unfold takeTask? at h
  split at h
  · next heq =>
    cases h
    rw [heq]
    exact List.subset_cons_self ..
  · cases h

/-- A script is used up from the front, and nothing is added to it. -/
theorem keeps_of_subset {P : Playback → Prop}
    (h : ∀ {p p' : Playback}, P p → p'.steps ⊆ p.steps → P p') : Engine.Keeps P where
  wrap p _ room hp := h hp (p.wrap_subset room)
  unwrap p _ room hp := h hp (p.unwrap_subset room)
  takeTask _ _ htask hp := h hp (takeTask?_subset htask)
  runTask _ hp := h hp (List.Subset.refl _)
  startHandshake _ hp := h hp (List.Subset.refl _)
  setSide _ _ hp := h hp (List.Subset.refl _)
  setCertificatePolicy _ _ hp := h hp (List.Subset.refl _)

theorem keeps_exact : Engine.Keeps IsExact := keeps_of_subset .of_subset

/-- An answer of the script is one of its replies, and fits into the space that it was given. -/
theorem exact_answer (p : Playback) (input : Bytes) (room : Nat) (h : p.IsExact) :
    (Call.unwrap input room (Engine.unwrap p input room).1).IsExact := by
  show (Call.unwrap input room (p.unwrap room).1).IsExact
  unfold unwrap
  split
  · next reply steps heq =>
    unfold answer
    split
    · trivial
    · next hfits =>
      have hmem : .unwrap reply ∈ p.steps := heq ▸ List.mem_cons_self
      exact ⟨h reply hmem, Nat.le_of_not_lt hfits⟩
  · trivial
  · trivial

end Playback

end SecureStream

import LiveTrip.Proofs.Dispatch.FanOut

/-!
# Exactly-once delivery

What the observers of a registry are told, over every run of it.

* `Board.Waiting`, `Board.AnsweredAt`: a call that is waiting for what it has set off, and an answer
  that has been given.
* `Board.Made.answered`: a call is answered when the fan-out it owes has told its whole audience.
* `Board.comes_to_rest`: if observers make no more calls, every call is answered.
* `Board.told_exactly_once`: the whole account.
-/

namespace LiveTrip.Board

variable {O V : Type} [DecidableEq O]

/-! ## Calls and their answers -/

/-- A call is waiting for what it has set off: its answer stands on the stack, above what was going
on when it was made. -/
def Waiting (b e : Board O V) (r : Reply O V) : Prop :=
  ∃ above, e.stack = above ++ .owner r :: b.stack

/-- An answer has been given, at a time when just this had happened. -/
def AnsweredAt (e : Board O V) (r : Reply O V)
    (log : List (Event Unit (fun _ => V) O (Reply O V))) : Prop :=
  ∃ later, e.log = later ++ .owner r :: log

omit [DecidableEq O] in
theorem AnsweredAt.mono {a b : Board O V} {r : Reply O V}
    {log : List (Event Unit (fun _ => V) O (Reply O V))} (h : AnsweredAt a r log)
    (hs : Dispatch.Steps a b) : AnsweredAt b r log := by
  obtain ⟨later, hl⟩ := h
  obtain ⟨events, he⟩ := hs.log_grows
  exact ⟨events ++ later, by rw [he, hl, List.append_assoc]⟩

omit [DecidableEq O] in
/-- A step that is no call leaves an answer waiting, unless it gives it. -/
theorem Quiet.waiting {a b b' : Board O V} {r : Reply O V} (h : Quiet b b') (hw : Waiting a b r) :
    Waiting a b' r ∨ b.stack = .owner r :: a.stack ∧ b'.log = .owner r :: b.log := by
  obtain ⟨x, below, above, events, top, hs, hl, -, howner⟩ := h
  obtain ⟨upper, hupper⟩ := hw
  rw [hupper] at top
  cases upper with
  | nil =>
    obtain ⟨rfl, rfl⟩ := List.cons_eq_cons.mp top
    obtain ⟨rfl, rfl⟩ := howner r rfl
    exact .inr ⟨hupper, hl⟩
  | cons y upper =>
    obtain ⟨rfl, rfl⟩ := List.cons_eq_cons.mp top
    exact .inl ⟨above ++ upper, by rw [hs, List.append_assoc]; rfl⟩

/-- A call made meanwhile leaves an answer waiting. -/
theorem Waiting.call {a b : Board O V} {r : Reply O V} (h : Waiting a b r) (caller : Option O)
    (c : Call O V) : Waiting a (b.call caller c) r := by
  obtain ⟨upper, hupper⟩ := h
  obtain ⟨own, -, hs, -⟩ := call_spec b caller c
  refine ⟨(b.due c).toList.map (fun p => .fanout p.1 p.2) ++
    (own ++ .owner ⟨caller, c, b.answer c⟩ :: upper), ?_⟩
  rw [hs, hupper]
  simp

/-- A call is waiting, or it has been answered, and then right after all that it set off. -/
theorem waiting_or_answered {b e : Board O V} {caller : Option O} {c : Call O V}
    {ds : List (Decision (Call O V))} (h : Reaches (b.call caller c) ds e) :
    Waiting b e ⟨caller, c, b.answer c⟩ ∨
      ∃ mid m, Reaches (b.call caller c) mid m ∧
        m.stack = .owner ⟨caller, c, b.answer c⟩ :: b.stack ∧
        AnsweredAt e ⟨caller, c, b.answer c⟩ m.log := by
  have hr := h.runs
  clear h
  -- Where a step ends the waiting, the board before it is the `m` in question.
  have quiet {ds : List (Decision (Call O V))} {m m' : Board O V}
      (hr : Runs (b.call caller c) ds m) (hq : Quiet m m')
      (hw : Waiting b m ⟨caller, c, b.answer c⟩) :
      Waiting b m' ⟨caller, c, b.answer c⟩ ∨
        ∃ mid m, Reaches (b.call caller c) mid m ∧
          m.stack = .owner ⟨caller, c, b.answer c⟩ :: b.stack ∧
          AnsweredAt m' ⟨caller, c, b.answer c⟩ m.log := by
    rcases hq.waiting hw with hw | ⟨hs, hl⟩
    · exact .inl hw
    · exact .inr ⟨ds, m, reaches_of_runs hr, hs, [], hl⟩
  induction hr with
  | refl =>
    obtain ⟨own, -, hs, -⟩ := call_spec b caller c
    exact .inl ⟨_, by rw [hs, ← List.append_assoc]⟩
  | silent hr hs ih =>
    rcases ih with hw | ⟨mid, m, hm, hstack, ha⟩
    · exact quiet hr (quiet_of_tick? hs) hw
    · exact .inr ⟨mid, m, hm, hstack, ha.mono (tick?_steps hs)⟩
  | act hr hs ih =>
    rcases ih with hw | ⟨mid, m, hm, hstack, ha⟩
    · obtain ⟨caller', c', -, rfl, rfl⟩ | hq := decide?_cases hs
      · exact .inl (hw.call caller' c')
      · exact quiet hr hq hw
    · exact .inr ⟨mid, m, hm, hstack, ha.mono (decide?_steps hs)⟩

/-- A call that was made is waiting, or it was answered when the fan-out it owes had told its whole
audience. -/
theorem Made.answered {ds : List (Decision (Call O V))} {e b : Board O V} {caller : Option O}
    {c : Call O V} (h : Made ds e b caller c) :
    Waiting b e ⟨caller, c, b.answer c⟩ ∨
      ∃ log, AnsweredAt e ⟨caller, c, b.answer c⟩ log ∧
        ∀ f audience, b.due c = some (f, audience) → toldIn f.serial log = audience := by
  obtain ⟨before, after, -, hb, hsp, he⟩ := h
  rcases waiting_or_answered he with hw | ⟨mid, m, hm, hs, ha⟩
  · exact .inl hw
  · refine .inr ⟨m.log, ha, fun f audience hd => ?_⟩
    have made : Made (before ++ .call c :: mid) m b caller c := ⟨before, mid, rfl, hb, hsp, hm⟩
    have hacc : m.Accounted := (hb.trans (.decide (decide?_call hsp c) hm)).accounted
    have hcomplete := hacc.complete f audience (began_of_made made hd)
    -- Below the answer is only what was there before, and that is older than the fan-out.
    have hnone : awaitingIn f.serial b.stack = [] :=
      hb.accounted.nested.awaitingIn_eq_nil (Nat.le_of_eq (serial_of_due hd).symm)
    rw [hs, awaitingIn_cons, hnone] at hcomplete
    simpa [Frame.awaiting] using hcomplete

/-! ## Coming to rest -/

/-- Steps that are left at one level if nobody makes a call any more. -/
def stepsLeft : Frame Unit (fun _ => V) O (Reply O V) → Nat
  | .fanout _ rest => 2 * rest.length + 1
  | _ => 1

/-- Steps that are left on a stack. -/
def stackLeft : List (Frame Unit (fun _ => V) O (Reply O V)) → Nat
  | [] => 0
  | x :: stack => stepsLeft x + stackLeft stack

/-- Where something is going on, it goes on by itself, or the observer at work can be done. Either
way less is left. -/
theorem exists_step {b : Board O V} (h : b.stack ≠ []) :
    ∃ b', (b.tick? = some b' ∨ b.decide? .finish = some b') ∧
      stackLeft b'.stack < stackLeft b.stack := by
  obtain ⟨x, below, top⟩ := List.exists_cons_of_ne_nil h
  cases x with
  | owner r =>
    refine ⟨Dispatch.note { b with stack := below } r, .inl (by simp only [tick?, top]), ?_⟩
    rw [top]
    simp [Dispatch.note, Dispatch.emit, stackLeft, stepsLeft]
  | keep slot g =>
    refine ⟨Dispatch.keep { b with stack := below } slot g,
      .inl (by simp only [tick?, Dispatch.advance?, top]), ?_⟩
    rw [top, (Dispatch.keep_alike _ slot g).1]
    simp [stackLeft, stepsLeft]
  | fanout f rest =>
    cases rest with
    | nil =>
      refine ⟨{ b with stack := below }, .inl (by simp only [tick?, Dispatch.advance?, top]), ?_⟩
      rw [top]
      simp [stackLeft, stepsLeft]
    | cons p rest =>
      refine ⟨_, .inl (by simp only [tick?, Dispatch.advance?, top]; rfl), ?_⟩
      rw [top]
      simp [Dispatch.emit, stackLeft, stepsLeft]
      omega
  | acting f id o =>
    refine ⟨b.finish, .inr (by simp only [decide?, Dispatch.speaker, top]), ?_⟩
    rw [top, Dispatch.finish_eq top]
    simp [stackLeft, stepsLeft]

/-- If whoever is at work makes no more calls, everything comes to an end. -/
theorem comes_to_rest (b : Board O V) :
    ∃ n e, Reaches b (List.replicate n .finish) e ∧ e.stack = [] := by
  -- By induction on what is left to do.
  induction hn : stackLeft b.stack using Nat.strongRecOn generalizing b with
  | ind k ih =>
    by_cases h : b.stack = []
    · exact ⟨0, b, .refl b, h⟩
    · obtain ⟨b', hs, hlt⟩ := exists_step h
      obtain ⟨n, e, he, hrest⟩ := ih _ (hn ▸ hlt) b' rfl
      rcases hs with hs | hs
      · exact ⟨n, e, .tick hs he, hrest⟩
      · exact ⟨n + 1, e, .decide hs he, hrest⟩

/-! ## The whole account -/

/-- What has become of a fan-out that was owed when the board was `b`. -/
structure Fulfilled (b e : Board O V) (f : Fanout Unit (fun _ => V))
    (audience : List (ObserverId × O)) : Prop where
  /-- It was new. -/
  fresh : ∀ g others, .began g others ∈ b.log → g.serial < f.serial
  /-- It began at once. -/
  begins : ∃ later, e.log = later ++ .began f audience :: b.log
  /-- The audience is in the order of registration, with nobody in it twice. -/
  ordered : audience.Pairwise fun p q => p.1 < q.1 ∧ p.2 ≠ q.2
  /-- Those told, in order, and those still to be told are the audience. -/
  told : toldIn f.serial e.log ++ awaitingIn f.serial e.stack = audience
  /-- They were told its value. -/
  own : ∀ g id o, .delivered g id o ∈ e.log → g.serial = f.serial → g = f

theorem audience_of_due {b : Board O V} (hb : b.items.WellFormed) {c : Call O V}
    {f : Fanout Unit (fun _ => V)} {audience : List (ObserverId × O)}
    (h : b.due c = some (f, audience)) :
    audience.Pairwise fun p q => p.1 < q.1 ∧ p.2 ≠ q.2 := by
  rcases due_cases h with ⟨v, -, -, rfl⟩ | ⟨o, v, -, -, -, -, rfl⟩
  · exact hb.ids_rise.and hb.observers_differ
  · exact List.pairwise_singleton _ _

/-- A call that was made has its fan-out fulfilled, as far as the run has come. -/
theorem Made.fulfilled {ds : List (Decision (Call O V))} {e b : Board O V} {caller : Option O}
    {c : Call O V} (h : Made ds e b caller c) {f : Fanout Unit (fun _ => V)}
    {audience : List (ObserverId × O)} (hd : b.due c = some (f, audience)) :
    Fulfilled b e f audience := by
  have hbegan := began_of_made h hd
  obtain ⟨before, after, -, hb, hsp, he⟩ := h
  have hacc : e.Accounted := (hb.trans (.decide (decide?_call hsp c) he)).accounted
  refine ⟨?_, ?_, audience_of_due hb.wellFormed hd, hacc.complete f audience hbegan, ?_⟩
  · intro g others hg
    rw [serial_of_due hd]
    exact hb.accounted.ledger.below g others hg
  · obtain ⟨own, -, -, hl⟩ := call_spec b caller c
    obtain ⟨events, hlog⟩ := he.steps.log_grows
    exact ⟨events, by rw [hlog, hl, hd]; rfl⟩
  · intro g id o hg hn
    obtain ⟨others, hothers⟩ := hacc.ledger.known _ hg g rfl
    exact (hacc.ledger.distinct g others f audience hothers hbegan hn).1

/-- **Whatever observers do from inside a delivery, each call tells its value exactly once to those
it owes it to, in the order they registered, before it is answered.** Nobody is told anything else,
an observer that is registered again is told nothing and keeps its number, and the failures counted
are those of deliveries. Once observers make no more calls, every call is answered. -/
theorem told_exactly_once {ds : List (Decision (Call O V))} {e : Board O V}
    (h : Reaches empty ds e) :
    (∀ b caller c, Made ds e b caller c →
      (∀ f audience, b.due c = some (f, audience) → Fulfilled b e f audience) ∧
      (Waiting b e ⟨caller, c, b.answer c⟩ ∨
        ∃ log, AnsweredAt e ⟨caller, c, b.answer c⟩ log ∧
          ∀ f audience, b.due c = some (f, audience) → toldIn f.serial log = audience) ∧
      ∀ o id, c = .register o → b.items.idOf? o = some id →
        b.due c = none ∧ b.answer c = .id id) ∧
    (∀ f id o, .delivered f id o ∈ e.log →
      ∃ b caller c audience, Made ds e b caller c ∧ b.due c = some (f, audience) ∧
        (id, o) ∈ audience) ∧
    e.items.failures = e.log.countP (Event.failsIn ()) ∧
    (∀ n, (failedIn n e.log).Sublist (toldIn n e.log)) ∧
    ∃ n e', Reaches e (List.replicate n .finish) e' ∧ e'.stack = [] := by
  have hacc := h.accounted
  refine ⟨?_, ?_, ?_, ?_, comes_to_rest e⟩
  · intro b caller c hm
    refine ⟨fun f audience hd => hm.fulfilled hd, hm.answered, ?_⟩
    rintro o id rfl ho
    constructor
    · simp [due, ho]
    · simp only [answer, Registry.enroll_of_some ho]
  · intro f id o hf
    obtain ⟨audience, hbegan⟩ := hacc.ledger.known _ hf f rfl
    obtain ⟨b, caller, c, hm, hd⟩ := made_of_began h hbegan
    refine ⟨b, caller, c, audience, hm, hd, ?_⟩
    rw [← hacc.complete f audience hbegan]
    exact List.mem_append_left _ (mem_toldIn.mpr ⟨f, hf, rfl⟩)
  · have := h.steps.failures ()
    simpa [empty, items, Dispatch.registry, RegistryTable.get] using this
  · intro n
    exact (List.sublist_append_left _ _).trans (hacc.failing n)

/-- An observer that is told a value takes out the next one, which is told all the same, and
publishes in turn; the next one fails. -/
theorem told_exactly_once_while_removed :
    ∃ ds e, Reaches (empty : Board Nat Nat) ds e ∧ e.stack = [] ∧
      toldIn 0 e.log = [(0, 10), (1, 11)] ∧ toldIn 1 e.log = [(0, 10)] ∧
      e.items.failures = 1 ∧ e.items.failures = e.log.countP (Event.failsIn ()) := by
  have h : Reaches (empty : Board Nat Nat) [.call (.register 10), .call (.register 11),
      .call (.publish 5), .call (.unregister 11), .call (.publish 6), .finish, .finish, .fail] _ :=
    reaches_of_runs (run_of_play 9 rfl)
  exact ⟨_, _, h, rfl, rfl, rfl, rfl, (told_exactly_once h).2.2.1⟩

end LiveTrip.Board

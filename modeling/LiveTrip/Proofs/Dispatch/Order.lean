import LiveTrip.Proofs.Dispatch.ExactlyOnce
import LiveTrip.Proofs.Dispatch.LastTold

/-!
# The order in which observers are told

Fan-outs nest, so a value published from inside a fan-out goes out before the rest of that fan-out.

* `begunIn`: the numbers of the fan-outs that a log begins. `Dispatch.Steps.counted`: they are all
  the numbers given out, in order.
* `Dispatch.Steps.delivered_at`: an observer is told by the uppermost fan-out.
* `Board.Brings`: a fan-out brings the value of a publish, as that publish or as a replay of it.
* `Board.Overtaken`: an observer gets the value of a publish after that of a later one.
* `Board.overtaken_iff_called_within`: the exact condition under which that happens.
-/

namespace LiveTrip

/-! ## The numbers of fan-outs -/

section Logs

variable {C : Type} {V : C → Type} {O E : Type}

/-- The number of the fan-out that an event begins. -/
def Event.begins? : Event C V O E → Option Nat
  | .began f _ => some f.serial
  | _ => none

/-- The numbers of the fan-outs that a log begins, last first. -/
def begunIn (log : List (Event C V O E)) : List Nat := log.filterMap Event.begins?

theorem mem_begunIn {log : List (Event C V O E)} {f : Fanout C V}
    {audience : List (ObserverId × O)} (h : .began f audience ∈ log) : f.serial ∈ begunIn log :=
  List.mem_filterMap.mpr ⟨_, h, rfl⟩

theorem begunIn_cons_of_none {e : Event C V O E} (h : e.begins? = none)
    (log : List (Event C V O E)) : begunIn (e :: log) = begunIn log :=
  List.filterMap_cons_none h

/-- The value that was last told anew was told by the youngest of the fan-outs that did. -/
theorem serial_le_of_lastTold [DecidableEq C] {c : C} {log : List (Event C V O E)}
    (hlog : (begunIn log).Pairwise (· > ·)) {f g : Fanout C V} (h : lastTold c log = some f)
    {audience : List (ObserverId × O)} (hg : .began g audience ∈ log) (hc : g.category = c)
    (fresh : g.cause ≠ .replay) : g.serial ≤ f.serial := by
  obtain ⟨newer, e, older, rfl, he, hnewer⟩ := List.findSome?_eq_some_iff.mp h
  rcases List.mem_append.mp hg with hg | hg
  · have := hnewer _ hg
    simp [Event.tells?, hc, fresh] at this
  · obtain ⟨audience', rfl⟩ : ∃ audience', e = .began f audience' := by
      cases e with
      | began f' audience' =>
        simp only [Event.tells?, Option.ite_none_right_eq_some, Option.some.injEq] at he
        exact ⟨audience', by rw [he.2]⟩
      | _ => cases he
    rcases List.mem_cons.mp hg with hg | hg
    · cases hg; exact Nat.le_refl _
    · have hp : (begunIn (.began f audience' :: older)).Pairwise (· > ·) := by
        rw [begunIn, List.filterMap_append] at hlog
        exact (List.pairwise_append.mp hlog).2.1
      exact Nat.le_of_lt ((List.pairwise_cons.mp hp).1 _ (mem_begunIn hg))

end Logs

namespace Dispatch

variable {T C : Type} {V : C → Type} {O X E : Type} [RegistryTable T C V O]
  {d d' : Dispatch T C V O X E}

/-- All numbers given out are those of fan-outs that have begun, in order. -/
def Counted (d : Dispatch T C V O X E) : Prop := begunIn d.log = (List.range d.serial).reverse

omit [RegistryTable T C V O] in
theorem Counted.begin (h : d.Counted) (cause : Cause) (c : C) (v : V c)
    (audience : List (ObserverId × O)) : (d.begin cause c v audience).Counted := by
  show d.serial :: begunIn d.log = (List.range (d.serial + 1)).reverse
  rw [h, List.range_succ, List.reverse_append]
  rfl

theorem Counted.step (h : d.Counted) (hs : Step d d') : d'.Counted := by
  cases hs with
  | table | guards | push | pop => exact h
  | note e => exact (begunIn_cons_of_none rfl _).trans h
  | publish cause c v =>
    have hr : (d.setRegistry c ((d.registry c).record v)).Counted := h
    exact hr.begin cause c v _
  | replay c v audience => exact h.begin .replay c v audience
  | deliver f id o => exact (begunIn_cons_of_none rfl _).trans h
  | fail f id o below top =>
    rw [fail_eq top]
    exact (begunIn_cons_of_none rfl _).trans h

/-- **Fan-outs are numbered without gaps, in the order they begin.** -/
theorem Counted.steps (h : d.Counted) (hs : Steps d d') : d'.Counted := by
  induction hs with
  | refl => exact h
  | tail _ hs ih => exact ih.step hs

omit [RegistryTable T C V O] in
theorem Counted.pairwise (h : d.Counted) : (begunIn d.log).Pairwise (· > ·) := by
  rw [h, List.pairwise_reverse]
  exact List.pairwise_lt_range

/-- A fan-out that has begun since has a number that was still free. -/
theorem Counted.serial_le (h : d.Counted) (hs : Steps d d') {events : List (Event C V O E)}
    (hlog : d'.log = events ++ d.log) {f : Fanout C V} {audience : List (ObserverId × O)}
    (hf : .began f audience ∈ events) : d.serial ≤ f.serial := by
  refine Nat.le_of_not_lt fun hlt => ?_
  have hold : f.serial ∈ begunIn d.log := by
    rw [h, List.mem_reverse, List.mem_range]
    exact hlt
  have hp := (h.steps hs).pairwise
  rw [hlog, begunIn, List.filterMap_append] at hp
  exact Nat.lt_irrefl _ ((List.pairwise_append.mp hp).2.2 _ (mem_begunIn hf) _ hold)

/-! ## Who is told, and when -/

/-- If an observer is told by a fan-out after it has been told by one that began later, the first
was under way when the later one was still to begin, and had the observer still to tell. -/
theorem Accounted.under_way (h : d.Accounted) (hc : d.Counted)
    (hs : Steps d d') {f g : Fanout C V} (hf : f.serial < d.serial) (hg : d.serial ≤ g.serial)
    {o : O} {id id' : ObserverId} (hsub : [.delivered f id o, .delivered g id' o].Sublist d'.log) :
    ∃ rest, .fanout f rest ∈ d.stack ∧ (id, o) ∈ rest := by
  obtain ⟨events, hlog⟩ := hs.log_grows
  have hlate : .delivered g id' o ∉ d.log := fun hm => by
    obtain ⟨audience, hb⟩ := h.ledger.known _ hm g rfl
    have := h.ledger.below g audience hb
    omega
  have hsince : .delivered f id o ∈ events := by
    rw [hlog] at hsub
    obtain ⟨new, old, heq, hnew, hold⟩ := List.sublist_append_iff.mp hsub
    cases new with
    | nil => exact absurd (hold.subset (by rw [← List.nil_append old, ← heq]; simp)) hlate
    | cons e new =>
      obtain ⟨rfl, -⟩ := List.cons_eq_cons.mp heq
      exact hnew.subset List.mem_cons_self
  rcases h.delivered_since (h.steps hs) hlog hsince with ⟨audience, hb⟩ | ⟨rest, hr, hm, -⟩
  · have := hc.serial_le hs hlog hb
    omega
  · exact ⟨rest, hr, hm⟩

/-- An observer is told when the fan-out that tells it is uppermost. -/
theorem Steps.delivered_at (hs : Steps d d') {f : Fanout C V} {id : ObserverId} {o : O}
    (h : .delivered f id o ∈ d'.log) :
    .delivered f id o ∈ d.log ∨
      ∃ m rest below later, Steps d m ∧ m.stack = .fanout f ((id, o) :: rest) :: below ∧
        d'.log = later ++ .delivered f id o :: m.log := by
  induction hs with
  | refl => exact .inl h
  | @tail b b' hb hs ih =>
    obtain ⟨events, hlog⟩ := hs.log_grows
    have old (hm : .delivered f id o ∈ b.log) :
        .delivered f id o ∈ d.log ∨
          ∃ m rest below later, Steps d m ∧ m.stack = .fanout f ((id, o) :: rest) :: below ∧
            b'.log = later ++ .delivered f id o :: m.log := by
      rcases ih hm with hm | ⟨m, rest, below, later, hsm, top, hl⟩
      · exact .inl hm
      · exact .inr ⟨m, rest, below, events ++ later, hsm, top, by rw [hlog, hl, List.append_assoc]⟩
    cases hs with
    | table | guards | push | pop => exact old h
    | note | publish | replay => exact old ((List.mem_cons.mp h).resolve_left nofun)
    | deliver g id' o' rest below top =>
      rcases List.mem_cons.mp h with h | h
      · cases h
        exact .inr ⟨b, rest, below, [], hb, top, rfl⟩
      · exact old h
    | fail g id' o' below top =>
      rw [fail_eq top] at h
      exact old ((List.mem_cons.mp h).resolve_left nofun)

end Dispatch

namespace Board

variable {O V : Type} [DecidableEq O]

/-! ## Values on their way -/

/-- A call published a value, by this fan-out. -/
def Published (e : Board O V) (p : Fanout Unit (fun _ => V)) : Prop :=
  p.cause = .call ∧ ∃ audience, .began p audience ∈ e.log

/-- A fan-out brings the value that `p` published: it is `p`, or it replays the last value to a new
observer and `p` was the last publish when it was called for. -/
def Brings (ds : List (Decision (Call O V))) (e : Board O V) (f p : Fanout Unit (fun _ => V)) :
    Prop :=
  f = p ∨ f.cause = .replay ∧ ∃ b caller c audience, Made ds e b caller c ∧
    b.due c = some (f, audience) ∧ lastTold () b.log = some p

/-- An observer gets the value of one publish after that of another. A log has its last event
first. -/
def Overtaken (ds : List (Decision (Call O V))) (e : Board O V) (o : O)
    (p q : Fanout Unit (fun _ => V)) : Prop :=
  ∃ f g id id', Brings ds e f p ∧ Brings ds e g q ∧
    [.delivered f id o, .delivered g id' o].Sublist e.log

theorem Reaches.counted {b : Board O V} {ds : List (Decision (Call O V))}
    (h : Reaches empty ds b) : b.Counted :=
  Dispatch.Counted.steps (d := empty) rfl h.steps

theorem Made.reaches {ds : List (Decision (Call O V))} {e b : Board O V} {caller : Option O}
    {c : Call O V} (h : Made ds e b caller c) : ∃ before, Reaches empty before b := by
  obtain ⟨before, after, -, hb, -, -⟩ := h
  exact ⟨before, hb⟩

theorem Made.steps {ds : List (Decision (Call O V))} {e b : Board O V} {caller : Option O}
    {c : Call O V} (h : Made ds e b caller c) : Dispatch.Steps b e := by
  obtain ⟨before, after, -, -, -, he⟩ := h
  exact (call_steps b caller c).trans he.steps

/-- A publish that has begun was called for. -/
theorem Published.made {ds : List (Decision (Call O V))} {e : Board O V} (h : Reaches empty ds e)
    {p : Fanout Unit (fun _ => V)} (hp : Published e p) :
    ∃ b caller, Made ds e b caller (.publish p.value) ∧ p.serial = b.serial := by
  obtain ⟨hcause, audience, hb⟩ := hp
  obtain ⟨b, caller, c, hm, hd⟩ := made_of_began h hb
  rcases due_cases hd with ⟨v, rfl, rfl, -⟩ | ⟨o, v, -, -, -, rfl, -⟩
  · exact ⟨b, caller, hm, rfl⟩
  · cases hcause

/-- Whatever brings a published value is no older than the publish. -/
theorem Brings.serial_le {ds : List (Decision (Call O V))} {e : Board O V}
    {f p : Fanout Unit (fun _ => V)} (h : Brings ds e f p) : p.serial ≤ f.serial := by
  rcases h with rfl | ⟨-, b, caller, c, audience, hm, hd, hlast⟩
  · exact Nat.le_refl _
  · obtain ⟨before, hb⟩ := hm.reaches
    obtain ⟨audience', hp⟩ := mem_of_lastTold hlast
    rw [serial_of_due hd]
    exact Nat.le_of_lt (hb.accounted.ledger.below p audience' hp)

/-! ## Replays are told at once -/

/-- The fan-outs that replay a value have told it. -/
def Replayed (stack : List (Frame Unit (fun _ => V) O (Reply O V))) : Prop :=
  ∀ f rest, .fanout f rest ∈ stack → f.cause = .replay → rest = []

/-- A fan-out that replays a value has one observer to tell, and has told it before anything comes
above. -/
def Brief : List (Frame Unit (fun _ => V) O (Reply O V)) → Prop
  | [] => True
  | x :: below =>
    (∀ f rest, x = .fanout f rest → f.cause = .replay → rest.length ≤ 1) ∧ Replayed below

omit [DecidableEq O] in
theorem Replayed.brief {stack : List (Frame Unit (fun _ => V) O (Reply O V))}
    (h : Replayed stack) : Brief stack := by
  cases stack with
  | nil => trivial
  | cons x below =>
    refine ⟨fun f rest hx hf => ?_, fun f rest hm => h f rest (List.mem_cons_of_mem _ hm)⟩
    rw [h f rest (by rw [hx]; exact List.mem_cons_self) hf]
    exact Nat.zero_le _

omit [DecidableEq O] in
theorem Replayed.cons {stack : List (Frame Unit (fun _ => V) O (Reply O V))}
    (h : Replayed stack) {x : Frame Unit (fun _ => V) O (Reply O V)}
    (hx : ∀ f rest, x = .fanout f rest → f.cause = .replay → rest = []) :
    Replayed (x :: stack) := by
  intro f rest hm hf
  rcases List.mem_cons.mp hm with hm | hm
  · exact hx f rest hm.symm hf
  · exact h f rest hm hf

omit [DecidableEq O] in
/-- While somebody has the word, no replay is under way. -/
theorem Brief.replayed {b : Board O V} (h : Brief b.stack) {caller : Option O}
    (hsp : b.speaker = some caller) : Replayed b.stack := by
  unfold Dispatch.speaker at hsp
  split at hsp
  · rename_i hs
    rw [hs]
    nofun
  · rename_i hs
    rw [hs] at h ⊢
    exact h.2.cons nofun
  · cases hsp

omit [DecidableEq O] in
theorem brief_of_tick? {b b' : Board O V} (h : Brief b.stack) (hs : b.tick? = some b') :
    Brief b'.stack := by
  unfold tick? at hs
  split at hs
  · rename_i r below top
    cases hs
    rw [top] at h
    exact h.2.brief
  · obtain ⟨f, below, top, rfl⟩ | ⟨f, id, o, rest, below, top, rfl⟩ | ⟨slot, g, below, top, rfl⟩ :=
      Dispatch.advance?_cases hs
    · rw [top] at h
      exact h.2.brief
    · rw [top] at h
      have htold : Replayed (.fanout f rest :: below) := h.2.cons fun f' rest' hx hf => by
        cases hx
        exact List.length_eq_zero_iff.mp (Nat.le_zero.mp (Nat.le_of_succ_le_succ (h.1 f _ rfl hf)))
      exact ⟨nofun, htold⟩
    · rw [top] at h
      show Brief (Dispatch.keep { b with stack := below } slot g).stack
      rw [(Dispatch.keep_alike _ slot g).1]
      exact h.2.brief

theorem brief_of_call {b : Board O V} (h : Brief b.stack) {caller : Option O}
    (hsp : b.speaker = some caller) (c : Call O V) : Brief (b.call caller c).stack := by
  obtain ⟨own, hown, hs, -⟩ := call_spec b caller c
  have hbelow : Replayed (own ++ .owner ⟨caller, c, b.answer c⟩ :: b.stack) := by
    intro f rest hm hf
    rcases List.mem_append.mp hm with hm | hm
    · cases hown _ hm
    · exact h.replayed hsp f rest ((List.mem_cons.mp hm).resolve_left nofun) hf
  rw [hs]
  cases hd : b.due c with
  | none => exact hbelow.brief
  | some owed =>
    refine ⟨fun f rest hx hf => ?_, hbelow⟩
    cases hx
    rcases due_cases hd with ⟨v, -, hp, -⟩ | ⟨o, v, -, -, -, -, ha⟩
    · rw [hp] at hf
      cases hf
    · rw [ha]
      exact Nat.le_refl _

theorem brief_of_decide? {b b' : Board O V} (h : Brief b.stack) {d : Decision (Call O V)}
    (hs : b.decide? d = some b') : Brief b'.stack := by
  unfold decide? at hs
  split at hs <;> cases hs
  · exact brief_of_call h ‹_› _
  · obtain ⟨f, id, below, top⟩ := Dispatch.acting_of_speaker ‹_›
    rw [Dispatch.finish_eq top]
    rw [top] at h
    exact h.2.brief
  · obtain ⟨f, id, below, top⟩ := Dispatch.acting_of_speaker ‹_›
    rw [Dispatch.fail_eq top]
    rw [top] at h
    exact h.2.brief

theorem Reaches.brief {b : Board O V} {ds : List (Decision (Call O V))}
    (h : Reaches empty ds b) : Brief b.stack := by
  have hr := h.runs
  clear h
  induction hr with
  | refl => trivial
  | silent _ hs ih => exact brief_of_tick? ih hs
  | act _ hs ih => exact brief_of_decide? ih hs

/-! ## When a publish is overtaken -/

/-- A replay is told before anything is published. -/
theorem Made.replayed {ds : List (Decision (Call O V))} {e b : Board O V} {caller : Option O}
    {c : Call O V} (h : Made ds e b caller c) : Replayed b.stack := by
  obtain ⟨before, after, -, hb, hsp, -⟩ := h
  exact hb.brief.replayed hsp

/-- An observer that is called in from a fan-out is the one that calls. -/
theorem Made.caller_of_stack {ds : List (Decision (Call O V))} {e b : Board O V}
    {caller : Option O} {c : Call O V} (h : Made ds e b caller c) (hs : b.stack ≠ []) :
    ∃ x, caller = some x := by
  obtain ⟨before, after, -, -, hsp, -⟩ := h
  unfold Dispatch.speaker at hsp
  split at hsp
  · exact absurd ‹_› hs
  · cases hsp; exact ⟨_, rfl⟩
  · cases hsp

/-- A replay of a publish is called for before any later publish begins. -/
theorem serial_lt_of_replay {ds : List (Decision (Call O V))} {e b : Board O V}
    (h : Reaches empty ds e) {p q f : Fanout Unit (fun _ => V)} (hq : Published e q)
    (hpq : p.serial < q.serial) {caller : Option O} {c : Call O V} (hm : Made ds e b caller c)
    {audience : List (ObserverId × O)} (hd : b.due c = some (f, audience))
    (hcause : f.cause = .replay) (hlast : lastTold () b.log = some p) : f.serial < q.serial := by
  obtain ⟨before, hb⟩ := hm.reaches
  obtain ⟨hcall, audience', hbegan⟩ := hq
  have hfresh : q.cause ≠ .replay := by rw [hcall]; nofun
  have hne : f.serial ≠ q.serial := fun heq => by
    obtain ⟨rfl, -⟩ :=
      h.accounted.ledger.distinct _ _ _ _ (began_of_made hm hd) hbegan heq
    exact hfresh hcause
  obtain ⟨events, hlog⟩ := hm.steps.log_grows
  have hle : b.serial ≤ q.serial := by
    have hmem := hbegan
    rw [hlog] at hmem
    rcases List.mem_append.mp hmem with hmem | hmem
    · exact hb.counted.serial_le hm.steps hlog hmem
    · have := serial_le_of_lastTold hb.counted.pairwise hlast hmem rfl hfresh
      omega
  have := serial_of_due hd
  omega

/-- What brings the value of a publish to an observer after that of a later one is the publish
itself. It was under way, with the observer still to be told, when the later publish was called,
and when that was called which brought the later value. -/
theorem under_way_of_overtaken {ds : List (Decision (Call O V))} {e : Board O V}
    (h : Reaches empty ds e) {p q f g : Fanout Unit (fun _ => V)} (hq : Published e q)
    (hpq : p.serial < q.serial) (hf : Brings ds e f p) {o : O} {id id' : ObserverId}
    (hsub : [.delivered f id o, .delivered g id' o].Sublist e.log) {a : Board O V}
    {caller : Option O} {c : Call O V} (hm : Made ds e a caller c) (hqa : q.serial ≤ a.serial)
    (hag : a.serial ≤ g.serial) : f = p ∧ ∃ rest, .fanout p rest ∈ a.stack ∧ (id, o) ∈ rest := by
  obtain ⟨before, ha⟩ := hm.reaches
  rcases hf with rfl | ⟨hcause, b, caller', c', audience, hb, hd, hlast⟩
  · exact ⟨rfl, ha.accounted.under_way ha.counted hm.steps (by omega) hag hsub⟩
  · -- A replay has told its observer by then.
    have hlt := serial_lt_of_replay h hq hpq hb hd hcause hlast
    obtain ⟨rest, hr, hmem⟩ := ha.accounted.under_way ha.counted hm.steps (by omega) hag hsub
    rw [hm.replayed f rest hr hcause] at hmem
    cases hmem

/-- Those that a fan-out has still to tell have not been told by it. -/
theorem not_told_of_awaiting {b : Board O V} {ds : List (Decision (Call O V))}
    (h : Reaches empty ds b) {f : Fanout Unit (fun _ => V)} {rest : List (ObserverId × O)}
    (hf : .fanout f rest ∈ b.stack) {id : ObserverId} {o : O} (hm : (id, o) ∈ rest) :
    .delivered f id o ∉ b.log := by
  intro htold
  obtain ⟨audience, hb⟩ := h.accounted.stacked f rest hf
  obtain ⟨a, caller, c, hmade, hd⟩ := made_of_began h hb
  obtain ⟨before, ha⟩ := hmade.reaches
  have hp := audience_of_due ha.wellFormed hd
  rw [← h.accounted.complete f audience hb, h.accounted.nested.awaitingIn_eq hf] at hp
  have hin : (id, o) ∈ toldIn f.serial b.log := mem_toldIn.mpr ⟨f, htold, rfl⟩
  exact Nat.lt_irrefl _ ((List.pairwise_append.mp hp).2.2 _ hin _ hm).1

/-- What a call owes from inside a fan-out is told before that fan-out goes on. -/
theorem delivered_before {ds : List (Decision (Call O V))} {e b : Board O V}
    (h : Reaches empty ds e) {caller : Option O} {c : Call O V} (hm : Made ds e b caller c)
    {g : Fanout Unit (fun _ => V)} {audience : List (ObserverId × O)}
    (hd : b.due c = some (g, audience)) {p : Fanout Unit (fun _ => V)}
    {rest : List (ObserverId × O)} (hp : .fanout p rest ∈ b.stack) {id id' : ObserverId} {o : O}
    (hrest : (id, o) ∈ rest) (haudience : (id', o) ∈ audience)
    (htold : .delivered p id o ∈ e.log) :
    [.delivered p id o, .delivered g id' o].Sublist e.log := by
  obtain ⟨before, after, rfl, hb, hsp, he⟩ := hm
  obtain ⟨own, -, -, hl⟩ := call_spec b caller c
  rw [hd] at hl
  have hacc : (b.call caller c).Accounted := hb.accounted.steps (call_steps b caller c)
  have hnot : .delivered p id o ∉ (b.call caller c).log := by
    rw [hl]
    simpa using not_told_of_awaiting hb hp hrest
  obtain ⟨m, rest', below, later, hsm, top, hlog⟩ :=
    (he.steps.delivered_at htold).resolve_left hnot
  have hm : m.Accounted := hacc.steps hsm
  have hbegan : .began g audience ∈ m.log := by
    obtain ⟨events, hev⟩ := hsm.log_grows
    rw [hev, hl]
    simp
  -- Above `p` there is nothing, and below it only what is older than `g`.
  have hlt : p.serial < g.serial := by
    have := hb.accounted.nested.serial_lt hp
    have := serial_of_due hd
    omega
  have hdone : awaitingIn g.serial m.stack = [] := by
    have hn := hm.nested
    rw [top] at hn ⊢
    cases hn with
    | plain hx => cases hx
    | fanout _ hs =>
      rw [awaitingIn_cons, hs.awaitingIn_eq_nil (Nat.le_of_lt hlt)]
      simp [Frame.awaiting, Nat.ne_of_lt hlt]
  have hall := hm.complete g audience hbegan
  rw [hdone, List.append_nil] at hall
  obtain ⟨g', hg', hn⟩ := mem_toldIn.mp (hall ▸ haudience)
  obtain ⟨audience', hb'⟩ := hm.ledger.known _ hg' g' rfl
  obtain ⟨rfl, -⟩ := hm.ledger.distinct _ _ _ _ hb' hbegan hn
  rw [hlog]
  exact (List.singleton_sublist.mpr hg').cons_cons _ |>.trans (List.sublist_append_right _ _)

/-- **An observer gets the value of a publish after that of a later one exactly if the call that
brings it the later value is made from inside the earlier fan-out, before that reaches it.** The
later publish is then called by an observer, from inside the earlier fan-out too. -/
theorem overtaken_iff_called_within {ds : List (Decision (Call O V))} {e : Board O V}
    (h : Reaches empty ds e) {p q : Fanout Unit (fun _ => V)} (hq : Published e q)
    (hpq : p.serial < q.serial) (o : O) :
    (Overtaken ds e o p q ↔
      ∃ b caller c g audience rest id id', Made ds e b caller c ∧
        b.due c = some (g, audience) ∧ Brings ds e g q ∧ .fanout p rest ∈ b.stack ∧
        (id, o) ∈ rest ∧ (id', o) ∈ audience ∧ .delivered p id o ∈ e.log) ∧
    (Overtaken ds e o p q →
      ∃ a x rest id, Made ds e a (some x) (.publish q.value) ∧ q.serial = a.serial ∧
        .fanout p rest ∈ a.stack ∧ (id, o) ∈ rest) := by
  refine ⟨⟨?_, ?_⟩, ?_⟩
  · rintro ⟨f, g, id, id', hf, hg, hsub⟩
    have hp : .delivered f id o ∈ e.log := hsub.subset List.mem_cons_self
    have hlater : .delivered g id' o ∈ e.log :=
      hsub.subset (List.mem_cons_of_mem _ List.mem_cons_self)
    obtain ⟨audience, hbegan⟩ := h.accounted.ledger.known _ hlater g rfl
    obtain ⟨b, caller, c, hm, hd⟩ := made_of_began h hbegan
    have hqg := hg.serial_le
    have hs := serial_of_due hd
    obtain ⟨rfl, rest, hr, hrest⟩ :=
      under_way_of_overtaken h hq hpq hf hsub hm (by omega) (by omega)
    have haudience : (id', o) ∈ audience := by
      rw [← h.accounted.complete g audience hbegan]
      exact List.mem_append_left _ (mem_toldIn.mpr ⟨g, hlater, rfl⟩)
    exact ⟨b, caller, c, g, audience, rest, id, id', hm, hd, hg, hr, hrest, haudience, hp⟩
  · rintro ⟨b, caller, c, g, audience, rest, id, id', hm, hd, hg, hr, hrest, haudience, htold⟩
    exact ⟨p, g, id, id', .inl rfl, hg, delivered_before h hm hd hr hrest haudience htold⟩
  · rintro ⟨f, g, id, id', hf, hg, hsub⟩
    obtain ⟨a, caller, hm, hs⟩ := hq.made h
    have hqg := hg.serial_le
    obtain ⟨rfl, rest, hr, hrest⟩ :=
      under_way_of_overtaken h hq hpq hf hsub hm (by omega) (by omega)
    obtain ⟨x, rfl⟩ := hm.caller_of_stack (List.ne_nil_of_mem hr)
    exact ⟨a, x, rest, id, hm, hs, hr, hrest⟩

/-- Two observers: the first publishes `6` when it is told `5`, and the second gets `6` first. -/
theorem overtaken_of_nested :
    ∃ ds e p q, Reaches (empty : Board Nat Nat) ds e ∧ Published e q ∧ p.value = 5 ∧ q.value = 6 ∧
      p.serial < q.serial ∧ Overtaken ds e 11 p q ∧
      ∃ a x rest id, Made ds e a (some x) (.publish 6) ∧ q.serial = a.serial ∧
        .fanout p rest ∈ a.stack ∧ (id, 11) ∈ rest := by
  let p : Fanout Unit (fun _ => Nat) := ⟨0, .call, (), 5⟩
  let q : Fanout Unit (fun _ => Nat) := ⟨1, .call, (), 6⟩
  obtain ⟨ds, e, before, h, hlast, hlog, htold⟩ : ∃ ds e before,
      Reaches (empty : Board Nat Nat) ds e ∧ lastTold () e.log = some q ∧
      e.log = .delivered p 1 11 :: before ∧ before[1]? = some (.delivered q 1 11) :=
    ⟨[.call (.register 10), .call (.register 11), .call (.publish 5), .call (.publish 6), .finish,
      .finish, .finish], _, _, reaches_of_runs (run_of_play 9 rfl), rfl, rfl, rfl⟩
  have hq : Published e q := ⟨rfl, mem_of_lastTold hlast⟩
  have hbefore : .delivered q 1 11 ∈ before := List.mem_of_getElem? htold
  have ho : Overtaken ds e 11 p q :=
    ⟨p, q, 1, 1, .inl rfl, .inl rfl, hlog ▸ (List.singleton_sublist.mpr hbefore).cons_cons _⟩
  exact ⟨ds, e, p, q, h, hq, rfl, rfl, Nat.zero_lt_one, ho,
    (overtaken_iff_called_within h hq Nat.zero_lt_one 11).2 ho⟩

end Board
end LiveTrip

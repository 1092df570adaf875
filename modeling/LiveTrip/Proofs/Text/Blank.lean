import LiveTrip.Text.Blank
import Mathlib.Data.List.DropRight

/-!
# Trimmed texts

* `trim_eq_self_iff`: a text is trimmed if there are no blanks at its ends.
* `trim_trim`, `infix_trim`: trimming a text once is enough, and leaves a part of it.
-/

namespace LiveTrip.Text

variable {s : List Char}

theorem trimStart_eq_self_iff : trimStart s = s ↔ ∀ c ∈ s.head?, isBlank c = false := by
  unfold trimStart
  cases s with
  | nil => simp
  | cons c s =>
    rw [List.dropWhile_cons]
    cases h : isBlank c with
    | false => simp [h]
    | true =>
      have hlen : (s.dropWhile isBlank).length < (c :: s).length :=
        Nat.lt_succ_of_le (List.dropWhile_suffix isBlank).length_le
      simp only [↓reduceIte, List.head?_cons, Option.mem_def, Option.some.injEq, forall_eq', h,
        Bool.true_eq_false, iff_false]
      exact fun hs => Nat.ne_of_lt hlen (congrArg List.length hs)

theorem trimEnd_eq_self_iff : trimEnd s = s ↔ ∀ c ∈ s.getLast?, isBlank c = false := by
  have h := trimStart_eq_self_iff (s := s.reverse)
  rw [List.head?_reverse] at h
  rw [← h]
  exact List.reverse_eq_iff

theorem suffix_trimStart (s : List Char) : trimStart s <:+ s := List.dropWhile_suffix _

theorem prefix_trimEnd (s : List Char) : trimEnd s <+: s := List.rdropWhile_prefix isBlank s

theorem infix_trim (s : List Char) : trim s <:+: s :=
  (prefix_trimEnd _).isInfix.trans (suffix_trimStart s).isInfix

theorem trim_eq_self_iff :
    trim s = s ↔ (∀ c ∈ s.head?, isBlank c = false) ∧ ∀ c ∈ s.getLast?, isBlank c = false := by
  rw [← trimStart_eq_self_iff, ← trimEnd_eq_self_iff]
  constructor
  · intro h
    have hstart : trimStart s = s := by
      refine (suffix_trimStart s).eq_of_length_le ?_
      have hle : (trim s).length ≤ (trimStart s).length := (prefix_trimEnd _).length_le
      rwa [h] at hle
    exact ⟨hstart, by rwa [trim, hstart] at h⟩
  · rintro ⟨hstart, hend⟩
    rw [trim, hstart, hend]

/-- A trimmed text starts where its blanks at the start end. -/
theorem head?_trim (s : List Char) : (trim s).head? = (trimStart s).head? := by
  cases hs : trimStart s with
  | nil => rw [trim, hs]; rfl
  | cons c rest =>
    have hblank : isBlank c = false := by
      have := List.head?_dropWhile_not isBlank s
      rw [← trimStart, hs] at this
      simpa using this
    obtain ⟨more, hmore⟩ := prefix_trimEnd (c :: rest)
    cases hend : trimEnd (c :: rest) with
    | nil =>
      have := List.rdropWhile_eq_nil_iff.mp hend c List.mem_cons_self
      rw [hblank] at this
      cases this
    | cons d kept =>
      rw [hend] at hmore
      cases hmore
      rw [trim, hs, hend]
      rfl

/-- A text that trimming makes no shorter is trimmed. -/
theorem trim_eq_self_of_length_le (h : s.length ≤ (trim s).length) : trim s = s :=
  (infix_trim s).eq_of_length_le h

/-- A blank at the start is trimmed off. -/
theorem trim_cons_of_isBlank {c : Char} (h : isBlank c = true) (s : List Char) :
    trim (c :: s) = trim s := by
  rw [trim, trimStart, List.dropWhile_cons_of_pos h]
  rfl

/-- A blank at the end is trimmed off. -/
theorem trim_concat_of_isBlank {c : Char} (h : isBlank c = true) (s : List Char) :
    trim (s ++ [c]) = trim s := by
  have hend (u : List Char) : trimEnd (u ++ [c]) = trimEnd u := List.rdropWhile_concat_pos isBlank u c h
  rw [trim, trimStart, List.dropWhile_append]
  split
  · rename_i hnil
    rw [List.isEmpty_iff] at hnil
    rw [trim, trimStart, hnil, List.dropWhile_cons_of_pos h]
    rfl
  · rw [hend]
    rfl

theorem trim_trim (s : List Char) : trim (trim s) = trim s := by
  refine trim_eq_self_iff.mpr ⟨fun c hc => ?_, ?_⟩
  · have hstart : trimStart (trimStart s) = trimStart s := List.dropWhile_idempotent isBlank s
    have hhead : (trimStart s).head? = some c := by
      obtain ⟨rest, hrest⟩ := prefix_trimEnd (trimStart s)
      rw [← hrest, List.head?_append]
      exact Option.or_eq_some_iff.mpr (.inl hc)
    exact trimStart_eq_self_iff.mp hstart c hhead
  · have hend : trimEnd (trim s) = trim s := List.rdropWhile_idempotent isBlank _
    exact trimEnd_eq_self_iff.mp hend

end LiveTrip.Text

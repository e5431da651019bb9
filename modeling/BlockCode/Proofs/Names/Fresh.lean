-- What a new identifier looks like. It is the first candidate that nobody has, and
-- it is made of word characters with no digit in front.
import BlockCode.Names.Identifier
import Mathlib.Data.List.Nodup

namespace BlockCode

open Text

/-! ## The search for a free candidate -/

theorem toString_injective {m n : Nat} (h : toString m = toString n) : m = n := by
  have h' := congrArg String.toList h
  simp only [Nat.toString_eq_ofList_toDigits, String.toList_ofList] at h'
  have hnum := congrArg (Nat.ofDigitChars 10 · 0) h'
  simpa only [Nat.ofDigitChars_ten_toDigits] using hnum

theorem append_injective (base : String) {s t : String} (h : base ++ s = base ++ t) : s = t := by
  have h' := congrArg String.toList h
  simp only [String.toList_append, List.append_cancel_left_eq] at h'
  exact String.toList_inj.mp h'

theorem candidate_injective (base : String) : Function.Injective (candidate base) := by
  have hlen : ∀ n, base ≠ base ++ toString (n + 1) := by
    intro n h
    have h' := congrArg String.toList h
    rw [String.toList_append, List.self_eq_append_right, Nat.toString_eq_ofList_toDigits,
      String.toList_ofList] at h'
    exact Nat.toDigits_ne_nil h'
  intro m n h
  unfold candidate at h
  split at h <;> split at h
  · omega
  · exact absurd h (hlen n)
  · exact absurd h.symm (hlen m)
  · have := toString_injective (append_injective base h)
    omega

/-- The search goes over candidates in use and ends at the first that is free, or when
the fuel is spent. -/
theorem firstFree_spec (inUse : String → Bool) (base : String) (fuel n : Nat) :
    ∃ k ≤ fuel, firstFree inUse base fuel n = candidate base (n + k) ∧
      (∀ i < k, inUse (candidate base (n + i)) = true) ∧
      (k < fuel → inUse (candidate base (n + k)) = false) := by
  induction fuel generalizing n with
  | zero => exact ⟨0, Nat.le_refl _, rfl, by simp, by simp⟩
  | succ fuel ih =>
    unfold firstFree
    split
    · rename_i hused
      obtain ⟨k, hk, heq, hbefore, hfree⟩ := ih (n + 1)
      refine ⟨k + 1, by omega, ?_, ?_, ?_⟩
      · rw [heq, Nat.add_assoc, Nat.add_comm 1 k]
      · intro i hi
        rcases Nat.eq_zero_or_pos i with h0 | hpos
        · subst h0; exact hused
        · have := hbefore (i - 1) (by omega)
          rwa [show n + 1 + (i - 1) = n + i by omega] at this
      · intro hlt
        have := hfree (by omega)
        rwa [show n + 1 + k = n + (k + 1) by omega] at this
    · rename_i hfree
      exact ⟨0, by omega, rfl, by simp, fun _ => by simpa using hfree⟩

theorem exists_not_mem {α : Type} {f : Nat → α} (hf : Function.Injective f) (list : List α) :
    ∃ i ≤ list.length, f i ∉ list := by
  by_contra hall
  push Not at hall
  have hsub : (List.range (list.length + 1)).map f ⊆ list := by
    intro a ha
    obtain ⟨i, hi, rfl⟩ := List.mem_map.mp ha
    exact hall i (by have := List.mem_range.mp hi; omega)
  have hle := (List.nodup_range.map hf).length_le_of_subset hsub
  simp only [List.length_map, List.length_range] at hle
  omega

/-- A new identifier is the first of the candidates that is not in use. -/
theorem fresh_spec (used : List String) (base : String) :
    ∃ k, fresh used base = candidate base k ∧ candidate base k ∉ used ∧
      ∀ i < k, candidate base i ∈ used := by
  rw [fresh_eq_firstFree]
  obtain ⟨k, hk, heq, hbefore, hfree⟩ := firstFree_spec used.contains base used.length 0
  simp only [Nat.zero_add, List.contains_iff_mem] at heq hbefore hfree
  refine ⟨k, heq, ?_, hbefore⟩
  rcases Nat.lt_or_eq_of_le hk with hlt | hend
  · simpa using hfree hlt
  · intro hmem
    obtain ⟨i, hi, hnot⟩ := exists_not_mem (candidate_injective base) used
    rcases Nat.lt_or_eq_of_le hi with hlt | heq'
    · exact hnot (hbefore i (by omega))
    · rw [heq', ← hend] at hnot
      exact hnot hmem

theorem fresh_eq_candidate {used : List String} {base : String} {k : Nat}
    (hfree : candidate base k ∉ used) (hused : ∀ i < k, candidate base i ∈ used) :
    fresh used base = candidate base k := by
  obtain ⟨j, heq, hnot, hbefore⟩ := fresh_spec used base
  rcases Nat.lt_trichotomy j k with hlt | rfl | hgt
  · exact absurd (hused j hlt) hnot
  · exact heq
  · exact absurd (hbefore k hgt) hfree

theorem fresh_not_mem (used : List String) (base : String) : fresh used base ∉ used := by
  obtain ⟨k, heq, hnot, -⟩ := fresh_spec used base
  rw [heq]
  exact hnot

/-! ## The shape of an identifier -/

/-- Word characters, at least one, with no digit in front. -/
structure Shaped (identifier : String) : Prop where
  ne_empty : identifier.toList ≠ []
  word : ∀ c ∈ identifier.toList, isWord c = true
  no_digit : ∀ c ∈ identifier.toList.head?, isDigit c = false

/-- The word characters of ASCII. -/
def asciiWords : Ranges := [(48, 57), (65, 90), (95, 95), (97, 122)]

/-- In ASCII the rest of the table need not be searched. -/
theorem isWord_ascii {c : Char} (h : c.toNat < 128) : isWord c = asciiWords.has c := by
  have hsplit : words = asciiWords ++ words.drop 4 := rfl
  have hlater : ∀ range ∈ words.drop 4, 128 ≤ range.1 := by decide +kernel
  have hnone : Ranges.has (words.drop 4) c = false := by
    rw [Bool.eq_false_iff, Ne, Ranges.has_iff]
    rintro ⟨range, hmem, hlower, -⟩
    have := hlater range hmem
    omega
  unfold isWord
  rw [hsplit]
  unfold Ranges.has at *
  rw [List.any_append, hnone, Bool.or_false]

theorem isWord_of_ascii_digit {c : Char} (h : c.isDigit = true) : isWord c = true := by
  have hr : '0'.toNat ≤ c.toNat ∧ c.toNat ≤ '9'.toNat := by
    simpa [Char.isDigit, Char.le_def, UInt32.le_iff_toNat_le] using h
  exact (Ranges.has_iff words c).mpr ⟨(48, 57), List.mem_cons_self, hr⟩

theorem Shaped.candidate {base : String} (h : Shaped base) (n : Nat) :
    Shaped (candidate base n) := by
  unfold BlockCode.candidate
  split
  · exact h
  · obtain ⟨c, cs, hcs⟩ := List.exists_cons_of_ne_nil h.ne_empty
    refine ⟨?_, ?_, ?_⟩
    · simp [hcs]
    · intro d hd
      rw [String.toList_append, List.mem_append] at hd
      rcases hd with hd | hd
      · exact h.word d hd
      · rw [Nat.toString_eq_ofList_toDigits, String.toList_ofList] at hd
        exact isWord_of_ascii_digit (Nat.isDigit_of_mem_toDigits (by decide) (by decide) hd)
    · have := h.no_digit
      simpa [hcs] using this

theorem shaped_unnamed : Shaped "unnamed" where
  ne_empty := by decide
  word := List.all_eq_true.mp (by decide +kernel)
  no_digit := by simp [show isDigit 'u' = false by decide +kernel]

theorem shaped_plainIdentifier (name : String) : Shaped (plainIdentifier name) := by
  unfold plainIdentifier
  split
  · exact shaped_unnamed
  · rename_i hname
    have hne : name.toList ≠ [] := by
      intro h
      apply hname
      rw [beq_iff_eq, ← String.toList_inj, h]
      rfl
    have hunder : isWord '_' = true := by
      rw [isWord_ascii (by decide)]
      decide
    have hword : ∀ c ∈ name.toList.map (fun c => if isWord c then c else '_'), isWord c = true := by
      intro c hc
      obtain ⟨d, -, rfl⟩ := List.mem_map.mp hc
      split
      · assumption
      · exact hunder
    simp only
    split
    · refine ⟨by simp, ?_, by simp [show isDigit 'm' = false by decide +kernel]⟩
      have hmy : ∀ c ∈ "my_".toList, isWord c = true :=
        List.all_eq_true.mp (by decide +kernel)
      intro c hc
      rw [String.toList_ofList, List.mem_append] at hc
      rcases hc with hc | hc
      · exact hmy c hc
      · exact hword c hc
    · rename_i hdigit
      refine ⟨by simpa using hne, ?_, ?_⟩
      · simpa only [String.toList_ofList] using hword
      · rw [String.toList_ofList]
        intro c hc
        rw [Option.mem_def] at hc
        rw [hc] at hdigit
        simpa using hdigit

theorem shaped_fresh (used : List String) {base : String} (h : Shaped base) :
    Shaped (fresh used base) := by
  obtain ⟨k, heq, -, -⟩ := fresh_spec used base
  rw [heq]
  exact h.candidate k

end BlockCode

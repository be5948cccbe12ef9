import Mathlib.Data.List.TakeDrop
import Mathlib.Data.List.TakeWhile
import DoublesLineup.Proofs.Roster.Matching
/-! # Reading a pair back from its key

A pair is written as its key, the two identifiers in order around `|`, and read by splitting a
text at its first `|` (`parse_eq_ok_iff`). Identifiers may hold the separator themselves, so the
two directions meet only part of the way:

* a pair reads back from its key exactly when its smaller identifier is not empty and holds no
  separator; otherwise the first `|` of the key is not the one between the players;
* a text that reads as a pair has that pair's key when its part before the first `|` is the
  smaller: the key is the two parts in order, and the parts in the other order never spell the
  same text (`key_of_parse`).

All of it rests on one fact about lists of characters: a text is split at its first separator in
one way only (`split_unique`).
-/

namespace DoublesLineup

namespace Pair

/-! ### Splitting at the first separator -/

section Split

variable {first second : List Char}

theorem ne_separator_of_not_mem {l : List Char} (h : '|' ∉ l) : ∀ c ∈ l, (c != '|') = true := by
  intro c hc
  simp only [bne_iff_ne, ne_eq]
  rintro rfl
  exact h hc

theorem span_of_separator (h : '|' ∉ first) :
    (first ++ '|' :: second).span (· != '|') = (first, '|' :: second) := by
  have inside := ne_separator_of_not_mem h
  rw [List.span_eq_takeWhile_dropWhile, List.takeWhile_append_of_pos inside,
    List.dropWhile_append_of_pos inside]
  simp

theorem span_of_no_separator {l : List Char} (h : '|' ∉ l) : l.span (· != '|') = (l, []) := by
  have inside := ne_separator_of_not_mem h
  rw [List.span_eq_takeWhile_dropWhile, List.takeWhile_eq_self_iff.mpr inside,
    List.dropWhile_eq_nil_iff.mpr inside]

theorem split_unique {first' second' : List Char} (h : '|' ∉ first) (h' : '|' ∉ first')
    (heq : first ++ '|' :: second = first' ++ '|' :: second') :
    first = first' ∧ second = second' := by
  have hsplit := @span_of_separator first second h
  rw [heq, span_of_separator h'] at hsplit
  simp only [Prod.mk.injEq, List.cons.injEq, true_and] at hsplit
  exact ⟨hsplit.1.symm, hsplit.2.symm⟩

theorem no_separator_or_split : ∀ l : List Char,
    '|' ∉ l ∨ ∃ first second, l = first ++ '|' :: second ∧ '|' ∉ first
  | [] => .inl List.not_mem_nil
  | c :: l => by
    by_cases hc : c = '|'
    · exact .inr ⟨[], l, by rw [hc]; rfl, List.not_mem_nil⟩
    · rcases no_separator_or_split l with hl | ⟨first, second, rfl, hfirst⟩
      · exact .inl fun hm => (List.mem_cons.mp hm).elim (fun e => hc e.symm) hl
      · refine .inr ⟨c :: first, second, rfl, fun hm => ?_⟩
        exact (List.mem_cons.mp hm).elim (fun e => hc e.symm) hfirst

end Split

theorem toList_join (a b : String) : (a ++ "|" ++ b).toList = a.toList ++ '|' :: b.toList := by
  simp [String.toList_append]

/-! ### Reading -/

theorem make?_eq_some_iff_of {a b : PlayerId} {p : Pair} :
    make? a b = some p ↔ a ≠ b ∧ p = of a b := by
  unfold make? of
  by_cases hab : a = b
  · simp [hab]
  · by_cases hlt : a < b <;> simp [hab, hlt, eq_comm]

theorem parse_eq_ok_iff {s : String} {q : Pair} :
    parse s = .ok q ↔ ∃ first second : String, s = first ++ "|" ++ second ∧
      '|' ∉ first.toList ∧ first ≠ "" ∧ second ≠ "" ∧ first ≠ second ∧ q = of first second := by
  constructor
  · intro h
    unfold parse at h
    rcases no_separator_or_split s.toList with hnone | ⟨f, g, hs, hf⟩
    · rw [span_of_no_separator hnone] at h
      cases h
    · rw [hs, span_of_separator hf] at h
      dsimp only at h
      split_ifs at h with hempty
      split at h
      · rename_i p hmake
        cases h
        obtain ⟨hne, rfl⟩ := make?_eq_some_iff_of.mp hmake
        simp only [Bool.or_eq_true, List.isEmpty_iff, not_or] at hempty
        refine ⟨String.ofList f, String.ofList g, ?_, by simpa using hf, ?_, ?_, hne, rfl⟩
        · rw [String.ext_iff, toList_join, String.toList_ofList, String.toList_ofList, hs]
        · simpa [← String.toList_inj] using hempty.1
        · simpa [← String.toList_inj] using hempty.2
      · cases h
  · rintro ⟨first, second, rfl, hsep, hfirst, hsecond, hne, rfl⟩
    have hempty : (first.toList.isEmpty || second.toList.isEmpty) = false := by
      simpa [String.toList_inj] using ⟨hfirst, hsecond⟩
    unfold parse
    rw [toList_join, span_of_separator hsep]
    dsimp only
    rw [if_neg (by simp [hempty]), String.ofList_toList, String.ofList_toList,
      make?_eq_some_iff_of.mpr ⟨hne, rfl⟩]

/-! ### Keys -/

theorem key_of (a b : PlayerId) :
    (of a b).key = if a < b then a ++ "|" ++ b else b ++ "|" ++ a := by
  unfold of key
  split <;> rfl

theorem join_swap_ne {first second : String} (hsep : '|' ∉ first.toList) (hne : first ≠ second)
    (hlt : ¬first < second) : second ++ "|" ++ first ≠ first ++ "|" ++ second := by
  intro heq
  rw [String.ext_iff, toList_join, toList_join] at heq
  rcases no_separator_or_split second.toList with hnone | ⟨c, d, hsecond, hc⟩
  · -- no separator in the second part: both splits are at its end, so the parts agree
    exact hne (String.toList_inj.mp (split_unique hnone hsep heq).1).symm
  · -- the second part starts with the first and a separator: the first is the smaller
    rw [hsecond, List.append_assoc, List.cons_append] at heq
    obtain ⟨rfl, -⟩ := split_unique hc hsep heq
    apply hlt
    show first.toList < second.toList
    have hprefix : first.toList ++ [] < first.toList ++ '|' :: d :=
      List.append_left_lt (List.nil_lt_cons '|' d)
    rwa [List.append_nil, ← hsecond] at hprefix

theorem key_of_parse {s : String} {q : Pair} (h : parse s = .ok q) :
    ∃ first second : String, s = first ++ "|" ++ second ∧ '|' ∉ first.toList ∧
      q.key = (if first < second then first ++ "|" ++ second else second ++ "|" ++ first) ∧
      (q.key = s ↔ first < second) := by
  obtain ⟨first, second, rfl, hsep, -, -, hne, rfl⟩ := parse_eq_ok_iff.mp h
  refine ⟨first, second, rfl, hsep, key_of first second, ?_⟩
  rw [key_of]
  by_cases hlt : first < second
  · simp [hlt]
  · simpa [hlt] using join_swap_ne hsep hne hlt

/-- A pair reads back from its key exactly when its smaller identifier is not empty and holds no
separator. -/
theorem parse_key_iff {p : Pair} (hp : p.Ordered) :
    parse p.key = .ok p ↔ p.low ≠ "" ∧ '|' ∉ p.low.toList := by
  have hhigh : p.high ≠ "" := by
    rintro h
    exact List.not_lt_nil _ (h ▸ hp : p.low.toList < ("" : String).toList)
  constructor
  · intro h
    obtain ⟨first, second, hkey, hsep, hfirst, -, hne, hp'⟩ := parse_eq_ok_iff.mp h
    have hjoin := congrArg String.toList hkey
    rw [key, toList_join, toList_join] at hjoin
    rcases no_separator_or_split p.low.toList with hnone | ⟨a, b, hlow, ha⟩
    · -- the key's first separator is the one between the players
      obtain ⟨hlow, -⟩ := split_unique hnone hsep hjoin
      exact ⟨fun h0 => hfirst (String.toList_inj.mp (by rw [← hlow, h0])), hnone⟩
    · -- a separator in the smaller identifier: the part before it is read as a player, and
      exfalso
      rw [hlow, List.append_assoc, List.cons_append] at hjoin
      obtain ⟨rfl, -⟩ := split_unique ha hsep hjoin
      unfold of at hp'
      split at hp'
      · have hlen := congrArg (fun s : String => s.toList.length) (congrArg Pair.low hp')
        simp only [hlow, List.length_append, List.length_cons] at hlen
        omega
      · have hprefix : first.toList <+: p.low.toList := ⟨'|' :: b, by rw [hlow]⟩
        have hle := hprefix.le
        rw [hp'] at hle hp
        exact hle hp
  · rintro ⟨hlow, hsep⟩
    refine parse_eq_ok_iff.mpr ⟨p.low, p.high, rfl, hsep, hlow, hhigh, ne_of_lt hp, ?_⟩
    unfold of
    rw [if_pos (show p.low < p.high from hp)]

/-- Keys and reading round-trip exactly when the smaller identifier is not empty and holds no
separator; any text that reads as a pair has the key of its two parts around the first `|` put
in order, which is the text again exactly when the part before the separator is the smaller. -/
theorem parse_key_round_trip :
    (∀ p : Pair, p.Ordered → (parse p.key = .ok p ↔ p.low ≠ "" ∧ '|' ∉ p.low.toList)) ∧
      ∀ (s : String) (q : Pair), parse s = .ok q →
        ∃ first second : String, s = first ++ "|" ++ second ∧ '|' ∉ first.toList ∧
          q.key = (if first < second then first ++ "|" ++ second else second ++ "|" ++ first) ∧
          (q.key = s ↔ first < second) :=
  ⟨fun _ hp => parse_key_iff hp, fun _ _ h => key_of_parse h⟩

/-- A smaller identifier holding the separator does not read back from its key, and a text
whose larger part comes first reads as the pair of its parts in order. -/
theorem parse_key_round_trip_of_separator_players :
    (⟨"a|b", "c"⟩ : Pair).Ordered ∧ parse (⟨"a|b", "c"⟩ : Pair).key ≠ .ok ⟨"a|b", "c"⟩ ∧
      parse "b|a" = .ok ⟨"a", "b"⟩ ∧
      ∃ first second : String, "b|a" = first ++ "|" ++ second ∧ '|' ∉ first.toList ∧
        (⟨"a", "b"⟩ : Pair).key =
          (if first < second then first ++ "|" ++ second else second ++ "|" ++ first) := by
  have hord : (⟨"a|b", "c"⟩ : Pair).Ordered := by
    show "a|b" < "c"
    decide
  have hparse : parse "b|a" = .ok ⟨"a", "b"⟩ := by decide
  obtain ⟨hkey, hread⟩ := parse_key_round_trip
  obtain ⟨first, second, hs, hsep, hq, -⟩ := hread _ _ hparse
  refine ⟨hord, fun h => ((hkey _ hord).mp h).2 (by decide), hparse, first, second, hs, hsep, hq⟩

end Pair

end DoublesLineup

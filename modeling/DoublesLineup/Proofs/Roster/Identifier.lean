import Mathlib.Data.String.Basic
import DoublesLineup.Roster.Pairing
/-! # What a pairing's identifier depends on

A pairing's identifier is a digest of the chunks it feeds its hasher: the pairs sorted, each
player as its UTF-8 byte length in eight little-endian bytes and then its bytes. The identifier
depends only on the pairs, whatever the hasher. A hasher that digests chunks as their
concatenation, as SHA-256 fed in chunks does, digests one byte string (`Pairing.encoding`). The
length in front lets the string be read back from the front one player at a time, so two
pairings give the same string exactly when they hold the same pairs, counted with multiplicity,
in whatever order (`Pairing.encoding_eq_iff`), and two pairings with different pairs share an
identifier only when two different strings have digests that agree in their first eight bytes.

The keys of a pairing join the two players of each pair by `|` and say less: players whose
identifiers hold the separator can give two different pairings the same keys.

Eight bytes of length describe a player of fewer than `2 ^ 64` bytes, as every identifier held
in memory is; the statements that read the string back take that bound as a hypothesis.
-/

namespace DoublesLineup

/-! ### Bytes of a string -/

theorem ByteArray.toList_loop (bs : ByteArray) (i : Nat) (r : List UInt8) :
    ByteArray.toList.loop bs i r = r.reverse ++ bs.data.toList.drop i := by
  fun_induction ByteArray.toList.loop bs i r with
  | case1 i r hi ih =>
    rw [ih, List.reverse_cons, List.append_assoc, List.singleton_append]
    congr 1
    have hi' : i < bs.data.toList.length := by simpa using hi
    rw [List.drop_eq_getElem_cons hi']
    simp [ByteArray.get!, hi]
  | case2 i r hi =>
    rw [List.drop_eq_nil_of_le (by simpa using hi), List.append_nil]

theorem ByteArray.toList_eq_data_toList (bs : ByteArray) : bs.toList = bs.data.toList := by
  simp [ByteArray.toList, ByteArray.toList_loop]

@[simp] theorem length_toByteArray_toList (x : String) :
    x.toByteArray.toList.length = x.utf8ByteSize := by
  rw [ByteArray.toList_eq_data_toList, Array.length_toList]
  exact String.size_toByteArray

theorem toByteArray_toList_inj {x y : String} (h : x.toByteArray.toList = y.toByteArray.toList) :
    x = y := by
  rw [ByteArray.toList_eq_data_toList, ByteArray.toList_eq_data_toList, Array.toList_inj] at h
  exact String.toByteArray_inj.mp (ByteArray.ext h)

/-! ### The length prefix -/

namespace Pairing

theorem mod_eq_of_bytes_eq {m n : Nat} (k : Nat)
    (h : (List.range k).map (fun i => (m / Nat.pow 256 i % 256).toUInt8) =
      (List.range k).map (fun i => (n / Nat.pow 256 i % 256).toUInt8)) :
    m % 256 ^ k = n % 256 ^ k := by
  induction k with
  | zero => simp only [pow_zero, Nat.mod_one]
  | succ k ih =>
    rw [List.range_succ, List.map_append, List.map_append] at h
    obtain ⟨hlow, hbyte⟩ := List.append_inj h (by simp)
    have hdigit : m / 256 ^ k % 256 = n / 256 ^ k % 256 := by
      simpa [Nat.pow_eq] using congrArg UInt8.toNat (List.singleton_inj.mp hbyte)
    rw [Nat.mod_pow_succ, Nat.mod_pow_succ, ih hlow, hdigit]

theorem littleEndian64_inj {m n : Nat} (hm : m < 2 ^ 64) (hn : n < 2 ^ 64)
    (h : littleEndian64 m = littleEndian64 n) : m = n := by
  have h8 := mod_eq_of_bytes_eq 8 h
  rwa [Nat.mod_eq_of_lt (by omega), Nat.mod_eq_of_lt (by omega)] at h8

@[simp] theorem length_littleEndian64 (n : Nat) : (littleEndian64 n).length = 8 := by
  simp [littleEndian64]

@[simp] theorem length_encodePlayer (x : PlayerId) :
    (encodePlayer x).length = 8 + x.utf8ByteSize := by
  simp [encodePlayer]

theorem encodePlayer_append_inj {x y : PlayerId} {r s : List UInt8}
    (hx : x.utf8ByteSize < 2 ^ 64) (hy : y.utf8ByteSize < 2 ^ 64)
    (h : encodePlayer x ++ r = encodePlayer y ++ s) : x = y ∧ r = s := by
  simp only [encodePlayer, String.toUTF8_eq_toByteArray, List.append_assoc] at h
  obtain ⟨hsizeBytes, hrest⟩ := List.append_inj h (by simp)
  have hsize := littleEndian64_inj hx hy hsizeBytes
  obtain ⟨hbytes, hr⟩ := List.append_inj hrest (by simp [hsize])
  exact ⟨toByteArray_toList_inj hbytes, hr⟩

theorem flatMap_encode_inj {ps qs : List Pair}
    (hps : ∀ x ∈ ps.flatMap Pair.players, x.utf8ByteSize < 2 ^ 64)
    (hqs : ∀ x ∈ qs.flatMap Pair.players, x.utf8ByteSize < 2 ^ 64)
    (h : ps.flatMap (fun q => encodePlayer q.low ++ encodePlayer q.high) =
      qs.flatMap (fun q => encodePlayer q.low ++ encodePlayer q.high)) : ps = qs := by
  induction ps generalizing qs with
  | nil =>
    cases qs with
    | nil => rfl
    | cons q qs =>
      have hlen := congrArg List.length h
      simp at hlen
      omega
  | cons p ps ih =>
    cases qs with
    | nil =>
      have hlen := congrArg List.length h
      simp at hlen
    | cons q qs =>
      simp only [List.flatMap_cons, List.mem_append, Pair.players, List.mem_cons,
        List.not_mem_nil, or_false] at h hps hqs
      rw [List.append_assoc, List.append_assoc] at h
      obtain ⟨hlow, h⟩ := encodePlayer_append_inj (hps _ (.inl (.inl rfl)))
        (hqs _ (.inl (.inl rfl))) h
      obtain ⟨hhigh, h⟩ := encodePlayer_append_inj (hps _ (.inl (.inr rfl)))
        (hqs _ (.inl (.inr rfl))) h
      have hrest := ih (fun x hx => hps x (.inr hx)) (fun x hx => hqs x (.inr hx)) h
      cases p
      cases q
      simp_all

end Pairing

/-! ### Sorting pairs -/

namespace Pair

theorem compare_eq_lex :
    (compare : Pair → Pair → Ordering) = compareLex (compareOn (·.low)) (compareOn (·.high)) :=
  rfl

instance instTransCmpCompare : Std.TransCmp (compare : Pair → Pair → Ordering) := by
  rw [compare_eq_lex]
  exact inferInstance

theorem eq_of_compare_eq {p q : Pair} (h : compare p q = .eq) : p = q := by
  rw [compare_eq_lex, compareLex, Ordering.then_eq_eq] at h
  obtain ⟨hlow, hhigh⟩ := h
  cases p
  cases q
  simp only [compareOn, Std.LawfulEqCmp.compare_eq_iff_eq] at hlow hhigh
  rw [hlow, hhigh]

theorem mergeSort_eq_of_perm {ps qs : List Pair} (h : ps.Perm qs) :
    ps.mergeSort (fun a b => compare a b != .gt) = qs.mergeSort (fun a b => compare a b != .gt) := by
  have htrans : ∀ a b c : Pair, (compare a b != .gt) = true → (compare b c != .gt) = true →
      (compare a c != .gt) = true := by
    intro a b c hab hbc
    simp only [bne_iff_ne, ne_eq, ← Ordering.isLE_iff_ne_gt] at hab hbc ⊢
    exact Std.TransCmp.isLE_trans hab hbc
  have htotal : ∀ a b : Pair, ((compare a b != .gt) || (compare b a != .gt)) = true := by
    intro a b
    have hswap : compare b a = (compare a b).swap := Std.OrientedCmp.eq_swap
    rw [hswap]
    cases compare a b <;> decide
  refine List.Perm.eq_of_pairwise ?_ (List.pairwise_mergeSort htrans htotal ps)
    (List.pairwise_mergeSort htrans htotal qs)
    ((List.mergeSort_perm ps _).trans (h.trans (List.mergeSort_perm qs _).symm))
  intro a b _ _ hab hba
  have hswap : compare b a = (compare a b).swap := Std.OrientedCmp.eq_swap
  simp only [bne_iff_ne, ne_eq, hswap] at hab hba
  apply eq_of_compare_eq
  cases hcmp : compare a b <;> simp_all

theorem make?_comm (a b : PlayerId) : make? a b = make? b a := by
  unfold make?
  rcases lt_trichotomy a b with hab | rfl | hba
  · simp [hab, ne_of_lt hab, (ne_of_lt hab).symm, not_lt_of_gt hab]
  · rfl
  · simp [hba, ne_of_lt hba, (ne_of_lt hba).symm, not_lt_of_gt hba]

end Pair

/-! ### The identifier -/

namespace Pairing

/-- The value of a lower-case hexadecimal digit. -/
def hexValue (c : Char) : Nat := if c.toNat < 58 then c.toNat - 48 else c.toNat - 87

theorem hexValue_digit :
    ∀ n < 16, hexValue (if n < 10 then Char.ofNat (48 + n) else Char.ofNat (87 + n)) = n := by
  decide

theorem hexByte_toList (b : UInt8) :
    (hexByte b).toList = [if b.toNat / 16 < 10 then Char.ofNat (48 + b.toNat / 16)
        else Char.ofNat (87 + b.toNat / 16),
      if b.toNat % 16 < 10 then Char.ofNat (48 + b.toNat % 16)
        else Char.ofNat (87 + b.toNat % 16)] := by
  simp [hexByte]

theorem hexByte_injective : Function.Injective hexByte := by
  intro a b h
  have hchars := hexByte_toList a ▸ hexByte_toList b ▸ congrArg String.toList h
  simp only [List.cons.injEq, and_true] at hchars
  have hhigh := congrArg hexValue hchars.1
  have hlow := congrArg hexValue hchars.2
  have ha := UInt8.toNat_lt a
  have hb := UInt8.toNat_lt b
  rw [hexValue_digit _ (by omega), hexValue_digit _ (by omega)] at hhigh hlow
  apply UInt8.toNat_inj.mp
  omega

theorem join_hexByte_inj {xs ys : List UInt8}
    (h : String.join (xs.map hexByte) = String.join (ys.map hexByte)) : xs = ys := by
  have hlen (b : UInt8) : (hexByte b).toList.length = 2 := by simp [hexByte_toList]
  replace h := congrArg String.toList h
  simp only [String.toList_join, List.flatMap_map] at h
  induction xs generalizing ys with
  | nil =>
    cases ys with
    | nil => rfl
    | cons y ys =>
      have hl := congrArg List.length h
      simp [hlen] at hl
      omega
  | cons x xs ih =>
    cases ys with
    | nil =>
      have hl := congrArg List.length h
      simp [hlen] at hl
    | cons y ys =>
      rw [List.flatMap_cons, List.flatMap_cons] at h
      obtain ⟨hxy, hrest⟩ := List.append_inj h (by rw [hlen, hlen])
      rw [hexByte_injective (String.toList_inj.mp hxy), ih hrest]

theorem mem_flatMap_mergeSort {ps : List Pair} {le : Pair → Pair → Bool} {x : PlayerId} :
    x ∈ (ps.mergeSort le).flatMap Pair.players ↔ x ∈ ps.flatMap Pair.players := by
  simp only [List.mem_flatMap, (List.mergeSort_perm ps le).mem_iff]

/-- Two pairings give the same bytes to digest exactly when they hold the same pairs, each as
often, in whatever order. -/
theorem encoding_eq_iff {P Q : Pairing}
    (hP : ∀ x ∈ P.members, x.utf8ByteSize < 2 ^ 64) (hQ : ∀ x ∈ Q.members, x.utf8ByteSize < 2 ^ 64) :
    P.encoding = Q.encoding ↔ P.pairs.Perm Q.pairs := by
  constructor
  · intro h
    have hsorted := flatMap_encode_inj (fun x hx => hP x (mem_flatMap_mergeSort.mp hx))
      (fun x hx => hQ x (mem_flatMap_mergeSort.mp hx)) h
    have hQsorted := List.mergeSort_perm Q.pairs fun a b => compare a b != .gt
    rw [← hsorted] at hQsorted
    exact (List.mergeSort_perm _ _).symm.trans hQsorted
  · intro h
    unfold encoding
    rw [Pair.mergeSort_eq_of_perm h]

theorem flatten_updates (p : Pairing) : p.updates.flatten = p.encoding := by
  unfold updates encoding
  induction p.pairs.mergeSort fun a b => compare a b != .gt with
  | nil => rfl
  | cons q ps ih =>
    rw [List.flatMap_cons, List.flatten_append, ih, List.flatMap_cons]
    simp [Pair.players, encodePlayer]

section Hasher

variable {σ : Type} (H : Hasher σ)

theorem id_eq_of_perm {P Q : Pairing} (h : P.pairs.Perm Q.pairs) : P.id H = Q.id H := by
  unfold id updates
  rw [Pair.mergeSort_eq_of_perm h]

/-- A hasher that digests chunks as their concatenation names a pairing by the digest of its
encoding. -/
theorem id_eq_digest (hH : H.Concatenates) (p : Pairing) :
    p.id H = String.join ((H.digest p.encoding).take 8 |>.map hexByte) := by
  rw [id, hH, flatten_updates]

theorem id_eq_iff (hH : H.Concatenates) (P Q : Pairing) :
    P.id H = Q.id H ↔ (H.digest P.encoding).take 8 = (H.digest Q.encoding).take 8 := by
  rw [id_eq_digest H hH, id_eq_digest H hH]
  exact ⟨join_hexByte_inj, fun h => by rw [h]⟩

/-- The identifier depends only on the pairs, counted with multiplicity: the bytes it digests
are the same for two pairings exactly when their pairs are, whatever their order, and a pair is
the same value whichever order its players are given in. Two pairings with different pairs
share an identifier only through two different byte strings whose digests agree in their first
eight bytes. -/
theorem id_depends_only_on_pairs (hH : H.Concatenates) {P Q : Pairing}
    (hP : ∀ x ∈ P.members, x.utf8ByteSize < 2 ^ 64) (hQ : ∀ x ∈ Q.members, x.utf8ByteSize < 2 ^ 64) :
    (P.encoding = Q.encoding ↔ P.pairs.Perm Q.pairs) ∧ (P.pairs.Perm Q.pairs → P.id H = Q.id H) ∧
      (P.id H = Q.id H → ¬P.pairs.Perm Q.pairs → P.encoding ≠ Q.encoding ∧
        (H.digest P.encoding).take 8 = (H.digest Q.encoding).take 8) ∧
      ∀ a b : PlayerId, Pair.make? a b = Pair.make? b a := by
  refine ⟨encoding_eq_iff hP hQ, id_eq_of_perm H, fun hid hperm => ?_, Pair.make?_comm⟩
  exact ⟨mt (encoding_eq_iff hP hQ).mp hperm, (id_eq_iff H hH P Q).mp hid⟩

end Hasher

end Pairing

/-- SHA-256 fed in chunks digests their concatenation: its state is the bytes fed so far. -/
theorem Sha256.hasher_concatenates : Sha256.hasher.Concatenates := by
  have hfold : ∀ (chunks : List (List UInt8)) (fed : List UInt8),
      chunks.foldl (· ++ ·) fed = fed ++ chunks.flatten := by
    intro chunks
    induction chunks with
    | nil => simp
    | cons c cs ih =>
      intro fed
      rw [List.foldl_cons, ih, List.flatten_cons, List.append_assoc]
  intro chunks
  simp only [Hasher.digest, Sha256.hasher, hfold, List.nil_append]

namespace Pairing

/-- Players holding the separator: the keys of `[a|b|c, d|e]` are the same whether the first
pair is `a|b` with `c` or `a` with `b|c`, but the two pairings digest different bytes. -/
theorem id_depends_only_on_pairs_of_separator_players :
    let P : Pairing := ⟨[⟨"a|b", "c"⟩, ⟨"d", "e"⟩]⟩
    let Q : Pairing := ⟨[⟨"a", "b|c"⟩, ⟨"d", "e"⟩]⟩
    Sha256.hasher.Concatenates ∧ P.keys = Q.keys ∧ (∀ x ∈ P.members, x.utf8ByteSize < 2 ^ 64) ∧
      (∀ x ∈ Q.members, x.utf8ByteSize < 2 ^ 64) ∧ P.encoding ≠ Q.encoding := by
  intro P Q
  have hP : ∀ x ∈ P.members, x.utf8ByteSize < 2 ^ 64 := by decide
  have hQ : ∀ x ∈ Q.members, x.utf8ByteSize < 2 ^ 64 := by decide
  have hkeys : P.keys = Q.keys := by
    unfold keys
    rw [List.mergeSort_of_pairwise (by decide), List.mergeSort_of_pairwise (by decide)]
    decide
  have hperm : ¬P.pairs.Perm Q.pairs := by decide
  exact ⟨Sha256.hasher_concatenates, hkeys, hP, hQ,
    mt (id_depends_only_on_pairs Sha256.hasher Sha256.hasher_concatenates hP hQ).1.mp hperm⟩

end Pairing

end DoublesLineup

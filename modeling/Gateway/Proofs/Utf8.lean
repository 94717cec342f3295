import Mathlib.Data.List.Basic
import Gateway.Text.Utf8
/-!
# Text in UTF-8

Decoding gives back what was encoded, character by character, whatever bytes follow
(`decodeFrom_encode`). So bytes that encode a text are wholly UTF-8 (`decode?_encode`).
-/
namespace Gateway.Utf8

@[simp] theorem encode_append (s t : Text) : encode (s ++ t) = encode s ++ encode t := List.flatMap_append

/-! ## First bytes -/

theorem lead_one {n : Nat} (h : n < 0x80) : lead (UInt8.ofNat n) = .char (Char.ofNat n) := by
  have hn : (UInt8.ofNat n).toNat = n := by
    rw [UInt8.toNat_ofNat']
    omega
  rw [lead, hn, if_pos h]

theorem lead_two {n : Nat} (hlow : 0x80 ≤ n) (hhigh : n < 0x800) :
    lead (UInt8.ofNat (0xC0 + n / 64)) = .longer ⟨n / 64, 1, 0x80, 0xBF⟩ := by
  have hn : (UInt8.ofNat (0xC0 + n / 64)).toNat = 0xC0 + n / 64 := by
    rw [UInt8.toNat_ofNat']
    omega
  simp only [lead, hn]
  rw [if_neg (by omega), if_neg (by omega), if_pos (by omega), Nat.add_sub_cancel_left]

/-- After some first bytes not every second byte may come: what fits into fewer bytes is not written in three, and
neither are surrogates. -/
theorem lead_three {n : Nat} (hlow : 0x800 ≤ n) (hhigh : n < 0x10000) (hvalid : n < 0xD800 ∨ 0xDFFF < n) :
    ∃ low high, lead (UInt8.ofNat (0xE0 + n / 4096)) = .longer ⟨n / 4096, 2, low, high⟩ ∧
      low ≤ 0x80 + n / 64 % 64 ∧ 0x80 + n / 64 % 64 ≤ high := by
  have hn : (UInt8.ofNat (0xE0 + n / 4096)).toNat = 0xE0 + n / 4096 := by
    rw [UInt8.toNat_ofNat']
    omega
  simp only [lead, hn]
  rw [if_neg (by omega), if_neg (by omega), if_neg (by omega)]
  by_cases h0 : n / 4096 = 0
  · rw [h0, if_pos rfl]
    exact ⟨_, _, rfl, by omega, by omega⟩
  rw [if_neg (by omega)]
  by_cases hD : n / 4096 = 0xD
  · rw [hD, if_pos rfl]
    exact ⟨_, _, rfl, by omega, by omega⟩
  rw [if_neg (by omega), if_pos (by omega), Nat.add_sub_cancel_left]
  exact ⟨_, _, rfl, by omega, by omega⟩

theorem lead_four {n : Nat} (hlow : 0x10000 ≤ n) (hhigh : n < 0x110000) :
    ∃ low high, lead (UInt8.ofNat (0xF0 + n / 262144)) = .longer ⟨n / 262144, 3, low, high⟩ ∧
      low ≤ 0x80 + n / 4096 % 64 ∧ 0x80 + n / 4096 % 64 ≤ high := by
  have hn : (UInt8.ofNat (0xF0 + n / 262144)).toNat = 0xF0 + n / 262144 := by
    rw [UInt8.toNat_ofNat']
    omega
  simp only [lead, hn]
  rw [if_neg (by omega), if_neg (by omega), if_neg (by omega), if_neg (by omega), if_neg (by omega), if_neg (by omega)]
  by_cases h0 : n / 262144 = 0
  · rw [h0, if_pos rfl]
    exact ⟨_, _, rfl, by omega, by omega⟩
  rw [if_neg (by omega)]
  by_cases h4 : n / 262144 = 4
  · rw [h4, if_neg (by decide), if_pos rfl]
    exact ⟨_, _, rfl, by omega, by omega⟩
  rw [if_pos (by omega), Nat.add_sub_cancel_left]
  exact ⟨_, _, rfl, by omega, by omega⟩

/-! ## Further bytes -/

theorem toNat_tail (n k : Nat) : (tail n k).toNat = 0x80 + n / Nat.pow 64 k % 64 := by
  rw [tail, UInt8.toNat_ofNat']
  omega

/-- A byte in the range that is due adds its six bits to the character that is being read. -/
theorem decodeFrom_due {p : Partial} {b : UInt8} {m : Nat} (bytes : Bytes) (hb : b.toNat = 0x80 + m)
    (hlow : p.low ≤ 0x80 + m) (hhigh : 0x80 + m ≤ p.high) :
    decodeFrom (some p) (b :: bytes) =
      if p.due = 1 then some (Char.ofNat (p.value * 64 + m)) :: decodeFrom none bytes
      else decodeFrom (some ⟨p.value * 64 + m, p.due - 1, 0x80, 0xBF⟩) bytes := by
  simp only [decodeFrom, hb, Nat.add_sub_cancel_left, hlow, hhigh, decide_true, Bool.and_self, if_true]

/-- The bytes that continue a character, from the one with the six bits above the `k` lowest groups of them. -/
def tails (n : Nat) : Nat → Bytes
  | 0 => [tail n 0]
  | k + 1 => tail n (k + 1) :: tails n k

theorem decodeFrom_tails (n k : Nat) {low high : Nat} (bytes : Bytes)
    (hlow : low ≤ 0x80 + n / Nat.pow 64 k % 64) (hhigh : 0x80 + n / Nat.pow 64 k % 64 ≤ high) :
    decodeFrom (some ⟨n / Nat.pow 64 (k + 1), k + 1, low, high⟩) (tails n k ++ bytes) =
      some (Char.ofNat n) :: decodeFrom none bytes := by
  have hvalue : ∀ k, n / Nat.pow 64 (k + 1) * 64 + n / Nat.pow 64 k % 64 = n / Nat.pow 64 k := fun k => by
    have hpow : n / Nat.pow 64 (k + 1) = n / Nat.pow 64 k / 64 := (Nat.div_div_eq_div_mul n _ 64).symm
    rw [hpow, Nat.div_add_mod']
  induction k generalizing low high with
  | zero => 
    rw [tails, List.singleton_append, decodeFrom_due bytes (toNat_tail n 0) hlow hhigh, if_pos rfl, hvalue]
    exact congrArg (fun m => some (Char.ofNat m) :: decodeFrom none bytes) (Nat.div_one n)
  | succ k ih =>
    rw [tails, List.cons_append, decodeFrom_due _ (toNat_tail n (k + 1)) hlow hhigh, if_neg (by simp), hvalue]
    exact ih (by omega) (by omega)

/-! ## Decoding -/

theorem decodeFrom_encodeChar (c : Char) (bytes : Bytes) :
    decodeFrom none (encodeChar c ++ bytes) = some c :: decodeFrom none bytes := by
  have hvalid : c.toNat < 0xD800 ∨ 0xDFFF < c.toNat ∧ c.toNat < 0x110000 := c.valid
  have hc : Char.ofNat c.toNat = c := Char.ofNat_toNat c
  unfold encodeChar
  dsimp only
  generalize c.toNat = n at *
  subst hc
  split
  · next h => rw [List.singleton_append, decodeFrom, lead_one h]
  split
  · next hlow hhigh =>
    rw [List.cons_append, decodeFrom, lead_two (Nat.le_of_not_lt hlow) hhigh]
    exact decodeFrom_tails n 0 bytes (by omega) (by omega)
  split
  · next hlow hhigh =>
    obtain ⟨low, high, hlead, hl, hh⟩ := lead_three (Nat.le_of_not_lt hlow) hhigh (by omega)
    rw [List.cons_append, decodeFrom, hlead]
    exact decodeFrom_tails n 1 bytes hl hh
  · next hlow =>
    obtain ⟨low, high, hlead, hl, hh⟩ := lead_four (Nat.le_of_not_lt hlow) (by omega)
    rw [List.cons_append, decodeFrom, hlead]
    exact decodeFrom_tails n 2 bytes hl hh

theorem decodeFrom_encode (s : Text) (bytes : Bytes) :
    decodeFrom none (encode s ++ bytes) = s.map some ++ decodeFrom none bytes := by
  induction s with
  | nil => rfl
  | cons c s ih =>
    rw [encode, List.flatMap_cons, List.append_assoc, decodeFrom_encodeChar, List.map_cons, List.cons_append]
    exact congrArg (some c :: ·) ih

theorem decode?_encode (s : Text) : decode? (encode s) = some s := by
  have hdecode : decodeFrom none (encode s) = s.map some := by
    simpa [decodeFrom] using decodeFrom_encode s []
  have hmap : s.mapM (m := Option) (fun c => pure (id c)) = pure (s.map id) := List.mapM_pure
  rw [decode?, hdecode, List.mapM_map]
  exact hmap.trans (congrArg some (List.map_id s))

end Gateway.Utf8

import Mathlib.Data.List.Infix
import Gateway.Proofs.Text
import Gateway.Search.Announcement
/-!
# UUIDs in USNs

A USN is a row of tokens with a colon behind each but the last. The first of those with a
colon that is "uuid", in any case of letters, has the UUID behind it, which goes up to the
first two colons in a row (`uuidOfUsn_upToColons`). So a UUID is read back from what follows
"uuid:" if two colons stand behind it and it neither has two in a row nor ends in one.
-/
namespace Gateway

/-- What stands in a text before the first two colons in a row, or all of it if there are none. -/
inductive UpToColons (s : Text) : Text → Prop where
  | cut {front rest : Text} (h : s = front ++ "::".toList ++ rest) (hfirst : ¬ "::".toList <:+: front ++ [':']) :
    UpToColons s front
  | whole (h : ¬ "::".toList <:+: s) : UpToColons s s

theorem upToColons_iff {s front : Text} :
    UpToColons s front ↔ front = match Text.cutAt? "::".toList s with
      | some (uuid, _) => uuid
      | none => s := by
  have hsome : ∀ front rest, Text.cutAt? "::".toList s = some (front, rest) ↔
      s = front ++ "::".toList ++ rest ∧ ¬ "::".toList <:+: front ++ [':'] :=
    fun front rest => Text.cutAt?_eq_some_iff (by decide)
  constructor
  · intro h
    cases h with
    | @cut front rest h hfirst => rw [(hsome front rest).2 ⟨h, hfirst⟩]
    | whole h => rw [Text.cutAt?_eq_none_iff.2 h]
  · rintro rfl
    cases hcut : Text.cutAt? "::".toList s with
    | some parts =>
      obtain ⟨h, hfirst⟩ := (hsome parts.1 parts.2).1 hcut
      exact .cut h hfirst
    | none => exact .whole (Text.cutAt?_eq_none_iff.1 hcut)

/-- Two colons behind a text are the first two in a row unless it has two or ends in one. -/
theorem notInfix_colon {s : Text} (h : ¬ "::".toList <:+: s) (hlast : s.getLast? ≠ some ':') :
    ¬ "::".toList <:+: s ++ [':'] := by
  rw [List.infix_concat_iff, not_or]
  refine ⟨fun ⟨front, hfront⟩ => hlast ?_, h⟩
  obtain ⟨hs, -⟩ := List.append_inj' (hfront.symm.trans (List.append_assoc front [':'] [':']).symm) rfl
  rw [hs, List.getLast?_concat]

/-! ## Tokens -/

theorem uuidFrom_append {front : Text} (h : ':' ∉ front) (token rest : Text) :
    uuidFrom token (front ++ ':' :: rest) = uuidFrom (front.reverse ++ token) (':' :: rest) := by
  induction front generalizing token with
  | nil => rfl
  | cons c front ih =>
    rw [List.mem_cons, not_or] at h
    rw [List.cons_append, uuidFrom, if_neg (Ne.symm h.1), ih h.2, List.reverse_cons, List.append_assoc,
      List.singleton_append]

/-- A token that is not "uuid" is passed over. -/
theorem uuidOfUsn_skip {token : Text} (h : ':' ∉ token) (hu : Text.sameLetters token "uuid".toList = false) (rest : Text) :
    uuidOfUsn (token ++ ':' :: rest) = uuidOfUsn rest := by
  rw [uuidOfUsn, uuidFrom_append h, List.append_nil, uuidFrom, if_pos rfl, List.reverse_reverse, hu,
    if_neg Bool.false_ne_true, uuidOfUsn]

theorem uuidOfUsn_tokens {tokens : List Text}
    (h : ∀ token ∈ tokens, ':' ∉ token ∧ Text.sameLetters token "uuid".toList = false) (rest : Text) :
    uuidOfUsn (tokens.flatMap (· ++ [':']) ++ rest) = uuidOfUsn rest := by
  induction tokens with
  | nil => rfl
  | cons token tokens ih =>
    obtain ⟨⟨hcolon, hu⟩, htokens⟩ := List.forall_mem_cons.1 h
    rw [List.flatMap_cons, List.append_assoc, List.append_assoc, List.singleton_append, uuidOfUsn_skip hcolon hu,
      ih htokens]

/-- A colon is no letter, so there is none in a text that has the letters of "uuid". -/
theorem notMem_of_sameLetters {token : Text} (h : Text.sameLetters token "uuid".toList = true) : ':' ∉ token := by
  intro hcolon
  have hlower : ':'.toLower ∈ Text.lower token := List.mem_map_of_mem hcolon
  rw [eq_of_beq h] at hlower
  revert hlower
  decide

/-- The UUID stands behind the token that is "uuid". -/
theorem uuidOfUsn_uuid {token : Text} (h : Text.sameLetters token "uuid".toList = true) (rest : Text) :
    UpToColons rest (uuidOfUsn (token ++ ':' :: rest)) := by
  rw [uuidOfUsn, uuidFrom_append (notMem_of_sameLetters h), List.append_nil, uuidFrom, if_pos rfl, List.reverse_reverse,
    if_pos h]
  exact upToColons_iff.2 rfl

theorem uuidFrom_of_notMem {s : Text} (h : ':' ∉ s) (token : Text) : uuidFrom token s = [] := by
  induction s generalizing token with
  | nil => rfl
  | cons c s ih =>
    rw [List.mem_cons, not_or] at h
    rw [uuidFrom, if_neg (Ne.symm h.1), ih h.2]

/-- A USN in which no token with a colon behind it is "uuid" has no UUID. -/
theorem uuidOfUsn_eq_nil {usn : Text}
    (h : ∀ token ∈ (List.splitOn ':' usn).dropLast, Text.sameLetters token "uuid".toList = false) : uuidOfUsn usn = [] := by
  -- One token after the other is passed over, up to the last colon.
  induction hn : usn.length using Nat.strongRecOn generalizing usn with
  | ind n ih =>
    by_cases hcolon : ':' ∈ usn
    · obtain ⟨token, rest, rfl, htoken⟩ := List.eq_append_cons_of_mem hcolon
      rw [List.splitOn_append_cons_self_of_not_mem htoken, List.dropLast_cons_of_ne_nil (List.splitOn_ne_nil ':' rest),
        List.forall_mem_cons] at h
      rw [uuidOfUsn_skip htoken h.1]
      refine ih rest.length ?_ h.2 rfl
      rw [← hn, List.length_append, List.length_cons]
      omega
    · exact uuidFrom_of_notMem hcolon []

/-! ## USNs -/

/-- The UUID of a USN goes from the first token that is "uuid" up to two colons. There is none if there is no such token.
A UUID with two colons behind it is read back, whatever colons and tokens it has. -/
theorem uuidOfUsn_upToColons :
    (∀ (tokens : List Text) (token rest : Text),
      (∀ t ∈ tokens, ':' ∉ t ∧ Text.sameLetters t "uuid".toList = false) → Text.sameLetters token "uuid".toList = true →
      UpToColons rest (uuidOfUsn (tokens.flatMap (· ++ [':']) ++ (token ++ ':' :: rest)))) ∧
    (∀ usn, (∀ t ∈ (List.splitOn ':' usn).dropLast, Text.sameLetters t "uuid".toList = false) → uuidOfUsn usn = []) ∧
    ∀ uuid suffix, ¬ "::".toList <:+: uuid → uuid.getLast? ≠ some ':' →
      uuidOfUsn ("uuid:".toList ++ uuid ++ "::".toList ++ suffix) = uuid := by
  refine ⟨fun tokens token rest htokens htoken => ?_, fun usn h => uuidOfUsn_eq_nil h, fun uuid suffix h hlast => ?_⟩
  · rw [uuidOfUsn_tokens htokens]
    exact uuidOfUsn_uuid htoken rest
  · have hcut : UpToColons (uuid ++ "::".toList ++ suffix) uuid := .cut rfl (notInfix_colon h hlast)
    have hread : UpToColons (uuid ++ "::".toList ++ suffix)
        (uuidOfUsn ("uuid".toList ++ ':' :: (uuid ++ "::".toList ++ suffix))) := uuidOfUsn_uuid (by decide) _
    have husn : "uuid:".toList ++ uuid ++ "::".toList ++ suffix =
        "uuid".toList ++ ':' :: (uuid ++ "::".toList ++ suffix) := by simp
    rw [husn, upToColons_iff.1 hread, ← upToColons_iff.1 hcut]

/-- An empty token before the UUID, a token without a colon behind it, and a token within the UUID. -/
theorem uuidOfUsn_upToColons_odd :
    UpToColons "a:b::urn:x".toList (uuidOfUsn "x::UuId:a:b::urn:x".toList) ∧ uuidOfUsn "urn:uuid".toList = [] ∧
    uuidOfUsn "uuid:a:uuid:b:::x".toList = "a:uuid:b".toList :=
  ⟨uuidOfUsn_upToColons.1 ["x".toList, []] "UuId".toList "a:b::urn:x".toList (by decide) (by decide),
    uuidOfUsn_upToColons.2.1 "urn:uuid".toList (by decide),
    uuidOfUsn_upToColons.2.2 "a:uuid:b".toList ":x".toList (by decide) (by decide)⟩

end Gateway

import Gateway.Proofs.Url.Target
/-!
# References on a host

A relative reference names something on the host of another URL: all of it up to a hash, from the
root (`namedTarget`). When the path that is read from it is put into that URL, something else may
be requested. Reading takes what stands before the first slash for a host, and the request keeps
the query of that URL (`requestTarget_reference`). So what begins with a slash is requested as it
is named exactly if both have the same query (`requestTarget_eq_named_iff`).
-/
namespace Gateway.Url

/-- A reference that says nothing about the host. -/
def IsRelative (c : Text) : Prop := ¬ "://".toList <:+: c

/-- From the root of a host. -/
def rooted (s : Text) : Text := if s.head? = some '/' then s else '/' :: s

/-- What a relative reference names on its host. -/
def namedTarget (c : Text) : Text := rooted (c.takeWhile (· != '#'))

/-- The path of what a relative reference names. -/
def namedPath (c : Text) : Text := rooted (c.takeWhile isPathChar)

/-- The query of what a relative reference names, with its mark. -/
def namedQuery (c : Text) : Text := (c.takeWhile (· != '#')).dropWhile (· != '?')

/-- The path that is read from a relative reference. -/
def readPath (c : Text) : Text := (c.dropWhile (· != '/')).takeWhile isPathChar

/-- The query of a URL with its mark, unless it is empty. -/
def markedQuery (u : Url) : Text := if u.queryText = [] then [] else '?' :: u.queryText

variable {c s t : Text}

/-! ## From the root -/

theorem notMem_rooted {a : Char} (ha : a ≠ '/') (h : a ∉ s) : a ∉ rooted s := by
  unfold rooted
  split
  · exact h
  · exact fun hmem => (List.mem_cons.1 hmem).elim ha h

theorem rooted_append (h : s = [] → t.head? ≠ some '/') : rooted (s ++ t) = rooted s ++ t := by
  cases s with
  | nil => simp [rooted, h rfl]
  | cons a s => by_cases ha : a = '/' <;> simp [rooted, ha]

theorem length_rooted_le (s : Text) : (rooted s).length ≤ s.length + 1 := by
  unfold rooted
  split
  · exact Nat.le_succ _
  · exact Nat.le_refl _

/-! ## What is named -/

theorem namedTarget_eq (c : Text) : namedTarget c = namedPath c ++ namedQuery c := by
  obtain ⟨hwhole, -, hmark⟩ := Text.takeWhile_dropWhile_spec (· != '?') (c.takeWhile (· != '#'))
  have hpath : (c.takeWhile (· != '#')).takeWhile (· != '?') = c.takeWhile isPathChar := by
    rw [List.takeWhile_takeWhile]
    refine congrArg (List.takeWhile · c) (funext fun a => ?_)
    rw [Bool.eq_iff_iff]
    simp [isPathChar]
  rw [namedTarget, hwhole, hpath]
  refine rooted_append fun _ hslash => ?_
  exact absurd (hmark '/' hslash) (by decide)

theorem head?_namedQuery (c : Text) : ∀ a ∈ (namedQuery c).head?, (a != '?') = false :=
  (Text.takeWhile_dropWhile_spec (· != '?') (c.takeWhile (· != '#'))).2.2

theorem namedQuery_of_plain (h : '?' ∉ c) : namedQuery c = [] := by
  rw [namedQuery, List.dropWhile_eq_nil_iff]
  exact fun a ha => Text.forall_bne.2 h a (List.takeWhile_subset _ ha)

theorem notMem_takeWhile_isPathChar (s : Text) : '?' ∉ s.takeWhile isPathChar :=
  (Text.forall_bne_bne.1 (Text.takeWhile_dropWhile_spec isPathChar s).2.1).1

/-! ## What is read -/

/-- A relative reference is read as a path from its first slash on. -/
theorem pathText_parse (h : IsRelative c) : (parse c).pathText = readPath c := by
  have hread := divides_ofText c
  rw [parse_eq, pathText_ofParts]
  generalize Parts.ofText c = p at hread
  have hscheme : p.scheme = none := by
    rw [← Option.not_isSome_iff_eq_none, hread.scheme_iff]
    exact h
  have hwhole : c = p.authority ++ p.fromPath := by
    rw [← hread.whole, p.text_eq, hscheme]
    simp [mark, Parts.afterScheme, Parts.authority]
  have hhead := (Parts.fromPath_head_iff hread.path_free).2 ⟨hread.path_end, hread.path_slash⟩
  have hdrop : c.dropWhile (· != '/') = p.fromPath := by
    rw [hwhole]
    refine (Text.takeWhile_dropWhile_append (· != '/') p.fromPath (Text.forall_bne.2 hread.notMem_authority) ?_).2
    exact fun a ha => by simp [hhead a ha]
  rw [readPath, hdrop, Parts.fromPath, List.append_assoc, List.append_assoc, List.append_assoc]
  refine ((Text.takeWhile_dropWhile_append isPathChar _ (Text.forall_bne_bne.2 hread.path_free) ?_).1).symm
  cases p.query <;> cases p.fragment <;> simp [mark, isPathChar]

theorem rooted_readPath (c : Text) : (if readPath c = [] then ['/'] else readPath c) = rooted (readPath c) := by
  unfold readPath
  have hhead := (Text.takeWhile_dropWhile_spec (· != '/') c).2.2
  cases h : c.dropWhile (· != '/') with
  | nil => rfl
  | cons a s =>
    obtain rfl : a = '/' := by simpa [h] using hhead
    simp [rooted, isPathChar]

/-- A reference that begins with a slash has the path that is read, -/
theorem rooted_readPath_of_slash (h : c.head? = some '/') : rooted (readPath c) = namedPath c := by
  obtain ⟨s, rfl⟩ := List.head?_eq_some_iff.1 h
  rfl

/-- and of any other plain path what stands before its first slash is lost. -/
theorem rooted_readPath_eq_iff (hne : c ≠ []) (hplain : '?' ∉ c ∧ '#' ∉ c) :
    rooted (readPath c) = namedPath c ↔ c.head? = some '/' := by
  refine ⟨fun h => ?_, rooted_readPath_of_slash⟩
  cases c with
  | nil => exact absurd rfl hne
  | cons a s =>
    by_contra hslash
    have ha : a ≠ '/' := by simpa using hslash
    have hfree : ∀ b ∈ a :: s, isPathChar b = true := Text.forall_bne_bne.2 hplain
    have hnamed : namedPath (a :: s) = '/' :: a :: s := by
      rw [namedPath, List.takeWhile_eq_self_iff.2 hfree, rooted, if_neg hslash]
    have hread : (readPath (a :: s)).length ≤ s.length := by
      rw [readPath, List.dropWhile_cons_of_pos (by simpa using ha)]
      exact (List.takeWhile_sublist _).length_le.trans (List.dropWhile_sublist _).length_le
    have hlength := (length_rooted_le (readPath (a :: s))).trans (Nat.succ_le_succ hread)
    rw [h, hnamed] at hlength
    simp only [List.length_cons] at hlength
    omega

theorem requestTarget_replacePath (p : Parts) (path : Text) :
    ((ofParts p).replacePath path).requestTarget = (if path = [] then ['/'] else path) ++ (ofParts p).markedQuery := by
  simp only [replacePath_ofParts, requestTarget, markedQuery, isEmpty_path, isEmpty_query, pathText_ofParts,
    queryText_ofParts, Parts.withPath]
  split <;> split <;> simp

/-! ## What is requested -/

/-- Putting the path of a relative reference into a URL requests that path with the query of the URL. -/
theorem requestTarget_reference (p : Parts) (h : IsRelative c) :
    ((ofParts p).replacePath (parse c).pathText).requestTarget = rooted (readPath c) ++ (ofParts p).markedQuery := by
  rw [requestTarget_replacePath, pathText_parse h, rooted_readPath]

/-- Of two targets the paths and the queries must be the same. -/
theorem requestTarget_eq_named_iff (p : Parts) (h : IsRelative c) :
    ((ofParts p).replacePath (parse c).pathText).requestTarget = namedTarget c ↔
      rooted (readPath c) = namedPath c ∧ (ofParts p).markedQuery = namedQuery c := by
  rw [requestTarget_reference p h, namedTarget_eq]
  refine ⟨fun heq => ?_, fun heq => by rw [heq.1, heq.2]⟩
  have hquery : ∀ a ∈ ((ofParts p).markedQuery).head?, (a != '?') = false := by
    unfold markedQuery
    split <;> simp
  have hleft := Text.takeWhile_dropWhile_append (· != '?') (ofParts p).markedQuery
    (Text.forall_bne.2 (notMem_rooted (by decide) (notMem_takeWhile_isPathChar (c.dropWhile (· != '/'))))) hquery
  have hright := Text.takeWhile_dropWhile_append (· != '?') (namedQuery c)
    (Text.forall_bne.2 (notMem_rooted (by decide) (notMem_takeWhile_isPathChar c))) (head?_namedQuery c)
  exact ⟨hleft.1.symm.trans ((congrArg _ heq).trans hright.1), hleft.2.symm.trans ((congrArg _ heq).trans hright.2)⟩

end Gateway.Url

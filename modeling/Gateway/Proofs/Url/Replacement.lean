import Gateway.Proofs.Url.RoundTrip
/-!
# Replacing paths

Replacing the path of a URL that was read, time after time, moves what stands behind it
and changes nothing else (`replacePath_frame`). If the URL has a scheme and the paths are
paths, what results is what reading its text anew would give (`parse_replacePaths`).
-/
namespace Gateway.Url

/-- Puts one path after another in the place of the old one. -/
def replacePaths (u : Url) (paths : List Text) : Url := paths.foldl replacePath u

theorem replacePaths_ofParts (p : Parts) (paths : List Text) :
    (ofParts p).replacePaths paths = ofParts (p.withPath (paths.getLastD p.path)) := by
  induction paths generalizing p with
  | nil => rfl
  | cons path paths ih =>
    rw [replacePaths, List.foldl_cons, replacePath_ofParts, List.getLastD_cons]
    exact ih (p.withPath path)

/-! ## Everything else -/

/-- Two URLs that show the same but for the path. -/
structure Agrees (u v : Url) : Prop where
  scheme : u.schemeText = v.schemeText
  userinfo : u.userinfoText = v.userinfoText
  host : u.hostText = v.hostText
  port : u.portText = v.portText
  query : u.queryText = v.queryText
  fragment : u.fragmentText = v.fragmentText
  hostAndPort : u.hostAndPort = v.hostAndPort
  portNumber : u.portNumber? = v.portNumber?
  endpoint : u.endpoint? = v.endpoint?

theorem agrees_ofParts (p : Parts) (path : Text) : (ofParts (p.withPath path)).Agrees (ofParts p) where
  scheme := by simp only [schemeText_ofParts, Parts.withPath]
  userinfo := by simp only [userinfoText_ofParts, Parts.withPath]
  host := by simp only [hostText_ofParts, Parts.withPath]
  port := by simp only [portText_ofParts, Parts.withPath]
  query := by simp only [queryText_ofParts, Parts.withPath]
  fragment := by simp only [fragmentText_ofParts, Parts.withPath]
  hostAndPort := by simp only [hostAndPort_ofParts, Parts.withPath]
  portNumber := by simp only [portNumber?, portText_ofParts, Parts.withPath]
  endpoint := by
    simp only [endpoint?, portNumber?, hostText_ofParts, schemeText_ofParts, portText_ofParts, isEmpty_port,
      Parts.withPath]

/-- What stands behind the path can be moved by as much as the path changes. -/
theorem InPlace.path_stop_le {u : Url} (h : u.InPlace) :
    ∀ n ∈ [u.query.start, u.query.stop, u.fragment.start, u.fragment.stop], u.path.stop ≤ n :=
  fun _ hn => List.rel_of_pairwise_cons (h.ordered.drop (i := 9)) hn

/-- However often the path was replaced before, replacing it puts the new one where the first stood and changes nothing
else, and the text is shown whole exactly if it was when it was read. -/
theorem replacePath_frame (s : Text) (paths : List Text) (path : Text) :
    let before := (parse s).replacePaths paths
    let after := before.replacePath path
    before.InPlace ∧
    (∀ n ∈ [before.query.start, before.query.stop, before.fragment.start, before.fragment.stop],
      before.path.stop ≤ n) ∧
    after.InPlace ∧ after.pathText = path ∧ after.Agrees (parse s) ∧
    (∃ front rest, Text.splitAt? (parse s).path.start s = some (front, (parse s).pathText ++ rest) ∧
      Text.splitAt? (parse s).path.stop s = some (front ++ (parse s).pathText, rest) ∧
      after.buffer = front ++ path ++ rest) ∧
    (after.text = after.buffer ↔ (parse s).text = (parse s).buffer) := by
  intro before after
  have hparse := parse_eq s
  have hwhole := (divides_ofText s).whole
  generalize Parts.ofText s = p at hparse hwhole
  subst hwhole
  have hbefore : before = ofParts (p.withPath (paths.getLastD p.path)) := by
    rw [← replacePaths_ofParts, ← hparse]
  have hafter : after = ofParts (p.withPath path) := by
    show before.replacePath path = _
    rw [hbefore, replacePath_ofParts]
    rfl
  have hplace : before.InPlace := hbefore ▸ inPlace_ofParts _
  rw [hparse, hafter]
  refine ⟨hplace, hplace.path_stop_le, inPlace_ofParts _, pathText_ofParts _, agrees_ofParts p path, ?_, ?_⟩
  · obtain ⟨hstart, hstop⟩ := splitAt?_path p
    rw [pathText_ofParts]
    exact ⟨_, _, hstart, hstop, by simp [Parts.text, Parts.pieces, Parts.withPath]⟩
  · rw [text_ofParts, text_ofParts, buffer_ofParts, buffer_ofParts, Parts.shown_text_eq_iff, Parts.shown_text_eq_iff]
    rfl

/-! ## Reading anew -/

/-- A path begins with a slash and holds no mark at which a path would end. -/
def IsPath (path : Text) : Prop := path.head? = some '/' ∧ '?' ∉ path ∧ '#' ∉ path

theorem IsPath.ne_nil {path : Text} (h : IsPath path) : path ≠ [] := by
  rintro rfl
  cases h.1

instance (path : Text) : Decidable (IsPath path) := inferInstanceAs (Decidable (_ ∧ _ ∧ _))

/-- What stands in front of the path, less the scheme. -/
def Parts.authority (p : Parts) : Text :=
  p.userinfo.getD [] ++ mark ['@'] p.userinfo ++ p.host ++ mark [':'] p.port ++ p.port.getD []

variable {p : Parts} {s path : Text}

theorem Parts.Divides.notMem_authority (h : p.Divides s) : '/' ∉ p.authority := by
  have huserinfo : '/' ∉ p.userinfo.getD [] := by
    cases hu : p.userinfo with
    | none => simp
    | some t => exact (h.userinfo_free t hu).2
  have hport : '/' ∉ p.port.getD [] := by
    cases hp : p.port with
    | none => simp
    | some t => exact h.port_free t hp
  have hmarks : '/' ∉ mark ['@'] p.userinfo ∧ '/' ∉ mark [':'] p.port := by
    unfold mark
    constructor <;> split <;> decide
  simp [authority, huserinfo, hport, hmarks, h.host_free.2]

/-- The first slash behind the scheme begins the path. -/
theorem Parts.takeWhile_afterScheme (h : '/' ∉ p.authority) (hhead : ∀ c ∈ p.fromPath.head?, c = '/') :
    p.afterScheme.takeWhile (· != '/') = p.authority := by
  have hsplit : p.afterScheme = p.authority ++ p.fromPath := by simp [afterScheme, authority]
  rw [hsplit]
  exact (Text.takeWhile_dropWhile_append (· != '/') p.fromPath (Text.forall_bne.2 h) fun c hc => by
    simp [hhead c hc]).1

/-- A path in the place of the old one is divided from the other parts as that was. -/
theorem Parts.Divides.withPath (h : p.Divides s) (hs : p.scheme.isSome) (hpath : IsPath path) :
    (p.withPath path).Divides (p.withPath path).text where
  whole := rfl
  scheme_iff := by
    obtain ⟨t, ht⟩ := Option.isSome_iff_exists.1 hs
    refine ⟨fun _ => ⟨t, (p.withPath path).afterScheme, ?_⟩, fun _ => hs⟩
    simp [text_eq, show (p.withPath path).scheme = some t from ht, mark]
  scheme_free := h.scheme_free
  -- the new path may hold an at sign, but only behind its first slash
  userinfo_iff := by
    have hold := (fromPath_head_iff h.path_free).2 ⟨h.path_end, h.path_slash⟩
    have hnew : ∀ c ∈ (p.withPath path).fromPath.head?, c = '/' :=
      (fromPath_head_iff hpath.2).2 ⟨fun he => absurd he hpath.ne_nil, fun _ => hpath.1⟩
    have hsame : (p.withPath path).afterScheme.takeWhile (· != '/') = p.afterScheme.takeWhile (· != '/') :=
      (takeWhile_afterScheme (p := p.withPath path) h.notMem_authority hnew).trans
        (takeWhile_afterScheme h.notMem_authority hold).symm
    rw [hsame]
    exact h.userinfo_iff
  userinfo_free := h.userinfo_free
  host_free := h.host_free
  port_free := h.port_free
  path_end := fun he => absurd he hpath.ne_nil
  path_slash := fun _ => hpath.1
  path_free := hpath.2
  query_free := h.query_free

/-- Replacing the paths of a URL with a scheme by paths gives what reading its text anew would give. -/
theorem parse_replacePaths (s : Text) (hs : "://".toList <:+: s) (paths : List Text)
    (hpaths : ∀ path ∈ paths, IsPath path) :
    parse ((parse s).replacePaths paths).buffer = (parse s).replacePaths paths := by
  have hold := divides_ofText s
  rw [parse_eq s, replacePaths_ofParts, parse_eq, buffer_ofParts]
  congr 1
  refine ofText_eq_iff.2 ?_
  rcases List.eq_nil_or_concat paths with rfl | ⟨front, path, rfl⟩
  · show (Parts.ofText s).Divides (Parts.ofText s).text
    rwa [hold.whole]
  · rw [List.concat_eq_append, List.getLastD_concat]
    exact hold.withPath (hold.scheme_iff.2 hs) (hpaths path (by simp))

-- user information, a port and a path that were empty, and marks in the paths that come in their place
theorem parse_replacePaths_marks :
    "://".toList <:+: "http://@h:".toList ∧ (∀ path ∈ ["/a@b://c:1".toList, "/é@".toList], IsPath path) ∧
      ((parse "http://@h:".toList).replacePaths ["/a@b://c:1".toList, "/é@".toList]).buffer =
        "http://@h:/é@".toList ∧
      parse ((parse "http://@h:".toList).replacePaths ["/a@b://c:1".toList, "/é@".toList]).buffer =
        (parse "http://@h:".toList).replacePaths ["/a@b://c:1".toList, "/é@".toList] :=
  have hs : "://".toList <:+: "http://@h:".toList := ⟨"http".toList, "@h:".toList, by decide⟩
  ⟨hs, by decide, by decide, parse_replacePaths "http://@h:".toList hs _ (by decide)⟩

end Gateway.Url

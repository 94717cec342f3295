import Gateway.Proofs.Calls
import Gateway.Proofs.Session
/-!
# Leases that are asked for

A gateway takes a lease of 0 for one without an end. What an operation sends is its call and
nothing else (`callsFor_of_mem_play`), and a call holds a text under a name exactly if that is
one of its arguments, whatever a user writes in the others (`elementText_infix_text_iff`). So the
lease that is asked for is the lease in whole seconds, and every lease of less than a second is
asked for as one without an end (`lease_sent`).
-/
namespace Gateway

open Http (Contact Exchange Glimpse)
open Xml (IsLocalName Markup elementText isNameChar)

/-! ## Tags -/

namespace Xml

theorem IsLocalName.isNameChar_of_mem {s : Text} (h : IsLocalName s) {c : Char} (hc : c ∈ s) : isNameChar c = true := by
  cases s with
  | nil => cases hc
  | cons d s =>
    obtain ⟨hd, hs⟩ := isName_cons h.isName
    rcases List.mem_cons.1 hc with rfl | hc
    · exact isNameChar_of_isNameStart hd
    · exact hs c hc

theorem IsLocalName.notMem {s : Text} (h : IsLocalName s) {c : Char} (hc : isNameChar c = false) : c ∉ s := fun hmem =>
  ne_of_isNameChar (h.isNameChar_of_mem hmem) hc rfl

theorem Markup.notMem_escapeChar (c : Char) : '<' ∉ escapeChar c := by
  unfold escapeChar
  split
  · decide
  · decide
  · decide
  · next hlt _ _ => exact fun h => hlt (List.mem_singleton.1 h).symm

theorem Markup.notMem_escapeValueChar (c : Char) : '<' ∉ escapeValueChar c := by
  unfold escapeValueChar
  split
  · decide
  · decide
  · decide
  · decide
  · exact notMem_escapeChar c

theorem Markup.notMem_escape (s : Text) : '<' ∉ escape s := fun h => by
  obtain ⟨c, -, hc⟩ := List.mem_flatMap.1 h
  exact notMem_escapeChar c hc

theorem Markup.notMem_attributeText {a : Text × Text} (h : '<' ∉ a.1) : '<' ∉ attributeText a := by
  have hvalue : '<' ∉ a.2.flatMap escapeValueChar := fun h => by
    obtain ⟨c, -, hc⟩ := List.mem_flatMap.1 h
    exact notMem_escapeValueChar c hc
  simp [attributeText, h, hvalue]

/-- What stands behind the mark that begins a start tag, up to the end of the tag. -/
def Markup.startPart (name : Text) (attributes : List (Text × Text)) : Text :=
  name ++ attributes.flatMap attributeText ++ ['>']

/-- What stands behind the mark that begins an end tag. -/
def Markup.endPart (name : Text) : Text := '/' :: name ++ ['>']

theorem Markup.notMem_startPart {name : Text} {attributes : List (Text × Text)} (hname : '<' ∉ name)
    (h : ∀ a ∈ attributes, '<' ∉ a.1) : '<' ∉ startPart name attributes := by
  have hattributes : '<' ∉ attributes.flatMap attributeText := fun hmem => by
    obtain ⟨a, ha, hmem⟩ := List.mem_flatMap.1 hmem
    exact notMem_attributeText (h a ha) hmem
  simp [startPart, hname, hattributes]

theorem Markup.notMem_endPart {name : Text} (hname : '<' ∉ name) : '<' ∉ endPart name := by
  simp [endPart, hname]

/-- What stands behind the marks that begin the two tags of a field. -/
def Markup.fieldParts (a : Text × Text) : List Text := [a.1 ++ '>' :: escape a.2, endPart a.1]

theorem Markup.splitOn_fields {fields : List (Text × Text)} (h : ∀ a ∈ fields, '<' ∉ a.1) {front : Text}
    (hfront : '<' ∉ front) (rest : Text) :
    List.splitOn '<' (front ++ (writeAll (fields.map fun a => .field a.1 a.2) ++ '<' :: rest)) =
      front :: (fields.flatMap fieldParts ++ List.splitOn '<' rest) := by
  induction fields generalizing front with
  | nil => exact List.splitOn_append_cons_self_of_not_mem hfront rest
  | cons a fields ih =>
    have ha := h a List.mem_cons_self
    have hfield : writeAll ((a :: fields).map fun a => .field a.1 a.2) ++ '<' :: rest =
        '<' :: ((a.1 ++ '>' :: escape a.2) ++ '<' ::
          (endPart a.1 ++ (writeAll (fields.map fun a => .field a.1 a.2) ++ '<' :: rest))) := by
      simp [writeAll, field, write, endPart]
    rw [hfield, List.splitOn_append_cons_self_of_not_mem hfront,
      List.splitOn_append_cons_self_of_not_mem (by simp [ha, notMem_escape]),
      ih (fun b hb => h b (List.mem_cons_of_mem _ hb)) (notMem_endPart ha)]
    rfl

theorem Markup.write_infix_writeAll {m : Markup} {ms : List Markup} (h : m ∈ ms) : m.write <:+: writeAll ms := by
  induction ms with
  | nil => cases h
  | cons m' ms ih =>
    rw [writeAll]
    rcases List.mem_cons.1 h with rfl | h
    · exact (List.prefix_append _ _).isInfix
    · exact (ih h).trans (List.suffix_append _ _).isInfix

theorem Markup.writeAll_infix_write (name : Text) (attributes : List (Text × Text)) (children : List Markup) :
    writeAll children <:+: write (.element name attributes children) := by
  refine ⟨'<' :: name ++ attributes.flatMap attributeText ++ ['>'], "</".toList ++ name ++ ['>'], ?_⟩
  simp only [write, List.append_assoc, List.cons_append, List.nil_append]

/-- A part of a text of markup that does not begin with a local name and the end of a tag. -/
def IsForeign (part : Text) : Prop :=
  ∃ front c, front <+: part ∧ '>' ∉ front ∧ c ∈ front ∧ (c = ':' ∨ isNameChar c = false)

theorem isForeign_endPart (name : Text) : IsForeign (Markup.endPart name) :=
  ⟨['/'], '/', ⟨name ++ ['>'], rfl⟩, by decide, by decide, .inr (by decide)⟩

theorem IsLocalName.ne_of_isForeign {name part : Text} (h : IsLocalName name) (hpart : IsForeign part) (value : Text) :
    name ++ '>' :: value ≠ part := by
  rintro rfl
  obtain ⟨front, c, ⟨rest, heq⟩, hend, hc, hmark⟩ := hpart
  have hname : c ∉ name := by
    rcases hmark with rfl | hmark
    · exact h.plain
    · exact h.notMem hmark
  rcases List.append_eq_append_iff.1 heq with ⟨more, rfl, -⟩ | ⟨more, rfl, hmore⟩
  · exact hname (List.mem_append_left _ hc)
  · cases more with
    | nil => exact hname (by simpa using hc)
    | cons d more =>
      obtain ⟨rfl, -⟩ := List.cons.inj hmore
      exact hend (by simp)

/-- A local name ends where its tag does. -/
theorem IsLocalName.append_inj {name name' value value' : Text} (h : IsLocalName name) (h' : IsLocalName name')
    (heq : name ++ '>' :: value = name' ++ '>' :: value') : name = name' ∧ value = value' := by
  have hcut : ∀ {s : Text}, IsLocalName s → ∀ rest, (s ++ '>' :: rest).takeWhile (· != '>') = s ∧
      (s ++ '>' :: rest).dropWhile (· != '>') = '>' :: rest := fun hs rest =>
    Text.takeWhile_dropWhile_append (· != '>') ('>' :: rest) (Text.forall_bne.2 (hs.notMem (by decide))) (by simp)
  obtain ⟨hleft, hright⟩ := hcut h value
  obtain ⟨hleft', hright'⟩ := hcut h' value'
  rw [heq] at hleft hright
  exact ⟨hleft.symm.trans hleft', (List.cons.inj (hright.symm.trans hright')).2⟩

end Xml

/-! ## The parts of a call -/

namespace Call

variable {c : Call} {serviceType name value : Text}

/-- What stands behind the marks that begin the tags in front of the arguments, -/
def frontParts (c : Call) (serviceType : Text) : List Text :=
  ["?xml version=\"1.0\" encoding=\"UTF-8\"?>".toList,
    Markup.startPart "s:Envelope".toList [("xmlns:s".toList, envelopeUri), ("s:encodingStyle".toList, encodingUri)],
    Markup.startPart "s:Body".toList [],
    Markup.startPart ("u:".toList ++ c.action) [("xmlns:u".toList, serviceType)]]

/-- and of those behind them. -/
def backParts (c : Call) : List Text :=
  [Markup.endPart ("u:".toList ++ c.action), Markup.endPart "s:Body".toList, Markup.endPart "s:Envelope".toList]

theorem isForeign_of_mem_frontParts : ∀ part ∈ c.frontParts serviceType, Xml.IsForeign part := by
  simp only [frontParts, List.forall_mem_cons, List.not_mem_nil, false_implies, implies_true, and_true]
  exact ⟨⟨['?'], '?', ⟨_, rfl⟩, by decide, by decide, .inr (by decide)⟩,
    ⟨['s', ':'], ':', ⟨_, rfl⟩, by decide, by decide, .inl rfl⟩,
    ⟨['s', ':'], ':', ⟨_, rfl⟩, by decide, by decide, .inl rfl⟩,
    ⟨['u', ':'], ':', ⟨_, rfl⟩, by decide, by decide, .inl rfl⟩⟩

theorem isForeign_of_mem_backParts : ∀ part ∈ c.backParts, Xml.IsForeign part := by
  simp only [backParts, List.forall_mem_cons, List.not_mem_nil, false_implies, implies_true, and_true]
  exact ⟨Xml.isForeign_endPart _, Xml.isForeign_endPart _, Xml.isForeign_endPart _⟩

theorem splitOn_text (serviceType : Text) (haction : '<' ∉ c.action) (harguments : ∀ a ∈ c.arguments, '<' ∉ a.1) :
    List.splitOn '<' (c.text serviceType) =
      [] :: (c.frontParts serviceType ++ c.arguments.flatMap Markup.fieldParts ++ c.backParts) := by
  have htext : c.text serviceType = [] ++ '<' :: ("?xml version=\"1.0\" encoding=\"UTF-8\"?>".toList ++
      '<' :: (Markup.startPart "s:Envelope".toList
          [("xmlns:s".toList, envelopeUri), ("s:encodingStyle".toList, encodingUri)] ++
        '<' :: (Markup.startPart "s:Body".toList [] ++
          '<' :: (Markup.startPart ("u:".toList ++ c.action) [("xmlns:u".toList, serviceType)] ++
            (Markup.writeAll (c.arguments.map fun a => .field a.1 a.2) ++
              '<' :: (Markup.endPart ("u:".toList ++ c.action) ++
                '<' :: (Markup.endPart "s:Body".toList ++ '<' :: Markup.endPart "s:Envelope".toList))))))) := by
    have hdeclaration : Xml.declaration = '<' :: "?xml version=\"1.0\" encoding=\"UTF-8\"?>".toList := rfl
    have hclose : "</".toList = ['<', '/'] := rfl
    rw [text, Xml.Markup.document_eq, hdeclaration, envelope]
    simp only [toMarkup, Markup.writeAll, Xml.Markup.write_element, elementText, Markup.startPart, Markup.endPart]
    rw [hclose]
    simp only [List.flatMap_nil, List.append_nil, List.nil_append, List.cons_append, List.append_assoc]
  have hrequest : '<' ∉ Markup.startPart ("u:".toList ++ c.action) [("xmlns:u".toList, serviceType)] :=
    Markup.notMem_startPart (by simp [haction]) (by simp)
  rw [htext, List.splitOn_append_cons_self_of_not_mem (by decide), List.splitOn_append_cons_self_of_not_mem (by decide),
    List.splitOn_append_cons_self_of_not_mem (Markup.notMem_startPart (by decide) (by decide)),
    List.splitOn_append_cons_self_of_not_mem (Markup.notMem_startPart (by decide) (by decide)),
    Markup.splitOn_fields harguments hrequest,
    List.splitOn_append_cons_self_of_not_mem (Markup.notMem_endPart (by simp [haction])),
    List.splitOn_append_cons_self_of_not_mem (by decide), List.splitOn_eq_singleton (by decide)]
  simp only [frontParts, backParts, List.cons_append, List.nil_append]

theorem field_infix_text {a : Text × Text} (ha : a ∈ c.arguments) :
    elementText a.1 [] (Markup.escape a.2) <:+: c.text serviceType := by
  have hfield : (Markup.field a.1 a.2).write = elementText a.1 [] (Markup.escape a.2) := by
    simp [Markup.field, Xml.Markup.write_element, Markup.writeAll, Markup.write]
  have hrequest : (Markup.field a.1 a.2).write <:+: (c.toMarkup serviceType).write :=
    (Markup.write_infix_writeAll (List.mem_map_of_mem (f := fun a => Markup.field a.1 a.2) ha)).trans
      (Markup.writeAll_infix_write _ _ _)
  have hbody : (c.toMarkup serviceType).write <:+: (Markup.element "s:Body".toList [] [c.toMarkup serviceType]).write :=
    (Markup.write_infix_writeAll List.mem_cons_self).trans (Markup.writeAll_infix_write _ _ _)
  have henvelope : (Markup.element "s:Body".toList [] [c.toMarkup serviceType]).write <:+: (c.envelope serviceType).write :=
    (Markup.write_infix_writeAll List.mem_cons_self).trans (Markup.writeAll_infix_write _ _ _)
  have htext : (c.envelope serviceType).write <:+: c.text serviceType := (List.suffix_append _ _).isInfix
  rw [← hfield]
  exact hrequest.trans (hbody.trans (henvelope.trans htext))

/-- A call holds an element with a text, and with neither attributes nor children, exactly for each of its arguments. -/
theorem elementText_infix_text_iff (haction : IsLocalName c.action) (harguments : ∀ a ∈ c.arguments, IsLocalName a.1)
    (hname : IsLocalName name) (hvalue : '<' ∉ value) :
    elementText name [] value <:+: c.text serviceType ↔ ∃ a ∈ c.arguments, a.1 = name ∧ Markup.escape a.2 = value := by
  constructor
  · rintro ⟨front, rest, htext⟩
    -- the element has the mark in front of its name, so that this is where a part begins
    have hpart : name ++ '>' :: value ∈ (List.splitOn '<' (c.text serviceType)).tail := by
      have hwhole : front ++ '<' :: (name ++ '>' :: value) ++ '<' :: ('/' :: name ++ '>' :: rest) = c.text serviceType := by
        rw [← htext]
        simp [elementText]
      rw [← hwhole]
      exact Text.mem_tail_splitOn (by simp [hname.notMem (c := '<') (by decide), hvalue]) front _
    rw [splitOn_text serviceType (haction.notMem (by decide)) fun a ha => (harguments a ha).notMem (by decide),
      List.tail_cons, List.mem_append, List.mem_append, List.mem_flatMap] at hpart
    rcases hpart with (hpart | ⟨a, ha, hpart⟩) | hpart
    · exact absurd rfl (hname.ne_of_isForeign (isForeign_of_mem_frontParts _ hpart) value)
    · rw [Markup.fieldParts, List.mem_cons, List.mem_singleton] at hpart
      rcases hpart with hpart | hpart
      · obtain ⟨hname', hvalue'⟩ := hname.append_inj (harguments a ha) hpart
        exact ⟨a, ha, hname'.symm, hvalue'.symm⟩
      · exact absurd hpart (hname.ne_of_isForeign (Xml.isForeign_endPart _) value)
    · exact absurd rfl (hname.ne_of_isForeign (isForeign_of_mem_backParts _ hpart) value)
  · rintro ⟨a, ha, rfl, rfl⟩
    exact field_infix_text ha

end Call

/-- A number is written without anything that has to be escaped. -/
theorem Xml.Markup.escape_decimal (n : Nat) : escape (Text.decimal n) = Text.decimal n := by
  have hchar : ∀ c ∈ Text.decimal n, escapeChar c = [c] := fun c hc => by
    have hdigit := Text.isDigit_of_mem_decimal hc
    unfold escapeChar
    split
    · cases hdigit
    · cases hdigit
    · cases hdigit
    · rfl
  rw [escape, List.flatMap_congr hchar, List.flatMap_singleton']

/-! ## Requests -/

/-- A request carries a text under a name: an element in its body holds the text, and nothing else. -/
def Http.Request.Carries (r : Http.Request) (name value : Text) : Prop := elementText name [] value <:+: r.body

/-- An exchange sends its own request and no other, and only before there is an answer. -/
theorem Http.Exchange.sending_of_look {x : Exchange} {g : Glimpse} {r : Http.Request}
    (h : .send r ∈ (x.look g).2 ∨ ∃ begun, (x.look g).1 = .sending r begun) : ∃ begun, x = .sending r begun := by
  cases x with
  | sending r' begun =>
    have hcontacts : .send r ∈ (if begun then [] else [Contact.send r']) → r' = r := fun hr => by
      cases begun with
      | true => cases hr
      | false => exact (Contact.send.inj (List.mem_singleton.1 hr)).symm
    have hr : r' = r := by
      unfold look at h
      dsimp only at h
      split at h
      · simp at h
      · split at h
        · simp at h
        · split at h
          · rcases h with h | ⟨_, h⟩
            · exact hcontacts h
            · exact (sending.inj h).1
          · exact hcontacts (by simpa using h)
          · exact hcontacts (by simpa using h)
    exact ⟨begun, hr ▸ rfl⟩
  | receiving status =>
    unfold look at h
    dsimp only at h
    split at h
    · simp at h
    · split at h <;> simp at h
  | done result => simp [look] at h

namespace Session

/-- The request calls for an operation, whatever the address of this side is. -/
def CallsFor (s : Session) (o : Operation) (r : Http.Request) : Prop :=
  ∃ client, r.body = (o.call client).text s.connection.serviceType

/-- What an operation in progress is going to send calls for it. -/
def Sends (s : Session) (o : Operation) : Progress → Prop
  | .exchanging (.sending r _) => s.CallsFor o r
  | .probing _ _ | .exchanging _ | .done _ => True

variable (s : Session) {o : Operation} {p : Progress} {r : Http.Request}

theorem sends_exchanging {x : Exchange} (hx : ∀ r begun, x = .sending r begun → s.CallsFor o r) :
    s.Sends o (exchanging o x) := by
  unfold exchanging
  split
  · trivial
  · cases x with
    | sending r begun => exact hx r begun rfl
    | receiving status | done result => trivial

theorem sends_exchange (o : Operation) (e : Endpoint) (client : Text) : s.Sends o (s.exchange o e client) := by
  refine s.sends_exchanging fun r begun hr => ?_
  unfold Exchange.start at hr
  split at hr
  · cases hr
    exact ⟨client, rfl⟩
  · cases hr

theorem sends_start (o : Operation) : s.Sends o (s.start o) := by
  unfold start
  dsimp only
  split
  · trivial
  · trivial
  · trivial
  · exact s.sends_exchange _ _ _

/-- One look sends nothing but what calls for the operation. -/
theorem sends_look (hp : s.Sends o p) (g : Glimpse) :
    s.Sends o (s.look o p g).1 ∧ ∀ r, .send r ∈ (s.look o p g).2 → s.CallsFor o r := by
  cases p with
  | probing e begun =>
    unfold look
    dsimp only
    split
    · exact ⟨trivial, nofun⟩
    · -- to connect is to send no request
      have hconnect : ∀ r, Contact.send r ∉ if begun = true then [] else [.connect e] := fun r => by
        cases begun <;> simp
      split
      · exact ⟨trivial, fun r hr => absurd hr (hconnect r)⟩
      · exact ⟨trivial, fun r hr => absurd hr (hconnect r)⟩
      · exact ⟨s.sends_exchange _ _ _, fun r hr => absurd hr (hconnect r)⟩
  | exchanging x =>
    have hx : ∀ r, (∃ begun, x = .sending r begun) → s.CallsFor o r := by
      rintro r ⟨begun, rfl⟩
      exact hp
    exact ⟨s.sends_exchanging fun r begun hr => hx r (Exchange.sending_of_look (.inr ⟨begun, hr⟩)),
      fun r hr => hx r (Exchange.sending_of_look (.inl hr))⟩
  | done result => exact ⟨trivial, nofun⟩

/-- Whatever happens to an operation, each request that it sends calls for it. -/
theorem callsFor_of_mem_play (hp : s.Sends o p) (turns : List Turn) :
    ∀ r, .send r ∈ (s.play o p turns).2 → s.CallsFor o r := by
  induction turns generalizing s p with
  | nil => exact nofun
  | cons turn turns ih =>
    cases turn with
    | stop => exact ih s.stop hp
    | look stages =>
      intro r hr
      obtain ⟨hnext, hsent⟩ := s.sends_look hp { stages with stopped := s.isStopped }
      rcases List.mem_append.1 hr with hr | hr
      · exact hsent r hr
      · exact ih s hnext r hr

end Session

/-! ## Leases -/

/-- Of the arguments of a call, only the lease has the name of a lease. -/
theorem Operation.exists_lease_iff (transport : Transport) (externalPort internalPort : UInt16) (description : Text)
    (lease : Duration) (client value : Text) :
    (∃ a ∈ ((Operation.add transport externalPort internalPort description lease).call client).arguments,
      a.1 = "NewLeaseDuration".toList ∧ Markup.escape a.2 = value) ↔ Text.decimal lease.seconds = value := by
  delta Operation.call
  simp only [List.exists_mem_cons_iff, List.not_mem_nil, false_and, exists_false, or_false]
  simp [Markup.escape_decimal]

theorem Session.CallsFor.carries_lease_iff {s : Session} {transport : Transport} {externalPort internalPort : UInt16}
    {description : Text} {lease : Duration} {r : Http.Request}
    (h : s.CallsFor (.add transport externalPort internalPort description lease) r) (n : Nat) :
    r.Carries "NewLeaseDuration".toList (Text.decimal n) ↔ n = lease.seconds := by
  obtain ⟨client, hbody⟩ := h
  obtain ⟨haction, harguments⟩ := Operation.isLocalName_call
    (.add transport externalPort internalPort description lease) client
  rw [Http.Request.Carries, hbody, Call.elementText_infix_text_iff haction harguments (by decide)
    (Text.notMem_decimal (by decide) n), Operation.exists_lease_iff]
  exact ⟨fun h => (Text.decimal_injective h).symm, fun h => h ▸ rfl⟩

/-- Whatever happens to an operation that adds a mapping, each request that it sends asks for the lease in whole
seconds, and for no other. It asks for a mapping without an end exactly if the lease is less than a second. -/
theorem lease_sent (s : Session) (transport : Transport) (externalPort internalPort : UInt16) (description : Text)
    (lease : Duration) (turns : List Turn) (r : Http.Request)
    (h : .send r ∈ (s.play (.add transport externalPort internalPort description lease)
      (s.start (.add transport externalPort internalPort description lease)) turns).2) :
    (∀ n, r.Carries "NewLeaseDuration".toList (Text.decimal n) ↔ n = lease.seconds) ∧
      (r.Carries "NewLeaseDuration".toList "0".toList ↔ lease.nanoseconds < Duration.perSecond) := by
  have hcarries := (s.callsFor_of_mem_play (s.sends_start _) turns r h).carries_lease_iff
  refine ⟨hcarries, (hcarries 0).trans ?_⟩
  rw [Duration.seconds, eq_comm, Nat.div_eq_zero_iff]
  simp [Duration.perSecond]

/-- A session of a gateway whose address can be read off its control URL. -/
def plainSession : Session where
  connection :=
    { uuid := [], friendlyName := [], device := ⟨[], [], [], [], []⟩, serviceId := []
      controlUrl := Url.parse "http://10.0.0.1/c".toList, serviceType := ipServiceType .one }
  config := {}

/-- The gateway is reached at once, and does not answer. -/
def plainTurns : List Turn := [.look { probe := some (.ok (.v4 ⟨10, 0, 0, 2⟩)) }, .look {}]

theorem exists_send_plain (lease : Duration) : ∃ r, .send r ∈ (plainSession.play (.add .tcp 80 80 [] lease)
    (plainSession.start (.add .tcp 80 80 [] lease)) plainTurns).2 :=
  ⟨_, List.mem_cons_of_mem _ List.mem_cons_self⟩

/-- Half a second is asked for as a lease without an end. -/
theorem lease_sent_half : ∃ r, .send r ∈ (plainSession.play (.add .tcp 80 80 [] (.ofMilliseconds 500))
    (plainSession.start (.add .tcp 80 80 [] (.ofMilliseconds 500))) plainTurns).2 ∧
    r.Carries "NewLeaseDuration".toList "0".toList := by
  obtain ⟨r, hr⟩ := exists_send_plain (.ofMilliseconds 500)
  exact ⟨r, hr, (lease_sent plainSession .tcp 80 80 [] (.ofMilliseconds 500) plainTurns r hr).2.2 (by decide)⟩

/-- So what asks for a lease without an end need not mean it. -/
theorem not_meant : ¬ ∀ (s : Session) (transport : Transport) (externalPort internalPort : UInt16) (description : Text)
    (lease : Duration) (turns : List Turn) (r : Http.Request),
    .send r ∈ (s.play (.add transport externalPort internalPort description lease)
      (s.start (.add transport externalPort internalPort description lease)) turns).2 →
    r.Carries "NewLeaseDuration".toList "0".toList → lease = ⟨0⟩ := by
  intro h
  obtain ⟨r, hr⟩ := exists_send_plain (.ofMilliseconds 500)
  have hcalls := plainSession.callsFor_of_mem_play (plainSession.sends_start _) plainTurns r hr
  exact absurd (h _ _ _ _ _ _ _ r hr ((hcalls.carries_lease_iff 0).2 (by decide))) (by decide)

end Gateway

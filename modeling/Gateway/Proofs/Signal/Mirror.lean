import Gateway.Signal.Run
import Gateway.Proofs.Table
import Gateway.Proofs.Signal.Slots
/-!
# A world over slots and a world over lists

Whatever commands run, a world whose tokens keep their callbacks in slots mirrors one
whose tokens keep them in plain lists (`World.Mirrors`). The two give different keys for
the same registration, so the relation has the pairs of keys that were given as its
argument; they become more with each registration and never fewer. Every function on
worlds keeps the relation, up to a whole run of commands (`Mirrors.perform`).
-/
namespace Gateway.Signal

/-- For each token, the keys of the two registries that were given for the same registration. -/
abbrev KeyPairs := Nat → Key → Key → Prop

namespace KeyPairs

/-- The pairs with one more, the keys of the links `l` and `l'`. -/
def add (κ : KeyPairs) (l l' : Link) : KeyPairs := fun n k k' => κ n k k' ∨ (n = l.token ∧ k = l.key ∧ k' = l'.key)

variable {κ : KeyPairs}

theorem le_add (l l' : Link) (n : Nat) (k k' : Key) (h : κ n k k') : κ.add l l' n k k' := .inl h

end KeyPairs

/-! ## What mirrors what -/

/-- The links are of the same registration with the same token. -/
def Link.Mirrors (κ : KeyPairs) (l l' : Link) : Prop := l.token = l'.token ∧ κ l.token l.key l'.key

/-- The tokens differ only in their registries, which hold the same callbacks in the same order,
and in the key of the link to their parent. -/
structure Token.Mirrors (κ : KeyPairs) (n : Nat) (t : Token Slots) (t' : Token Arrivals) : Prop where
  count : t.count = t'.count
  holders : t.holders = t'.holders
  registry : t.registry.Tracks (κ n) t'.registry
  parent : Option.Rel (Link.Mirrors κ) t.parent t'.parent

/-- The connections differ only in the keys of their links. -/
structure Connection.Mirrors (κ : KeyPairs) (c c' : Connection) : Prop where
  link : c.link.Mirrors κ c'.link
  count : c.count = c'.count

/-- The futures wait for the same, and differ only in the keys of their links. -/
inductive Source.Mirrors (κ : KeyPairs) : Source → Source → Prop where
  | firing (n : Nat) {l l' : Option Link} (h : Option.Rel (Link.Mirrors κ) l l') :
    Source.Mirrors κ (.firing n l) (.firing n l')
  | wait (v ticket : Nat) {l l' : Option Link} (h : Option.Rel (Link.Mirrors κ) l l') :
    Source.Mirrors κ (.wait v ticket l) (.wait v ticket l')

/-- The futures differ only in the keys of their links. -/
structure Future.Mirrors (κ : KeyPairs) (u u' : Future) : Prop where
  source : u.source.Mirrors κ u'.source
  outcome : u.outcome = u'.outcome
  watcher : u.watcher = u'.watcher
  completed : u.completed = u'.completed

/-- The worlds have the same objects under the same numbers and names, and the same log. No pair
of keys is of a token that is still to be made, so a new token begins with none. -/
structure World.Mirrors (κ : KeyPairs) (w : World Slots) (v : World Arrivals) : Prop where
  tokens : Table.Related (Token.Mirrors κ) w.tokens v.tokens
  connections : Table.Related (fun _ => Connection.Mirrors κ) w.connections v.connections
  condvars : w.condvars = v.condvars
  futures : Table.Related (fun _ => Future.Mirrors κ) w.futures v.futures
  tokenNames : w.tokenNames = v.tokenNames
  connectionNames : w.connectionNames = v.connectionNames
  condvarNames : w.condvarNames = v.condvarNames
  futureNames : w.futureNames = v.futureNames
  next : w.next = v.next
  log : w.log = v.log
  token_lt : ∀ n, (w.tokens.get? n).isSome → n < w.next
  pair_lt : ∀ n k k', κ n k k' → n < w.next

variable {κ κ' : KeyPairs}

theorem Link.mirrors_add (κ : KeyPairs) (l l' : Link) (h : l.token = l'.token) : l.Mirrors (κ.add l l') l' := ⟨h, .inr ⟨rfl, rfl, rfl⟩⟩

/-! ## More pairs of keys -/

theorem Link.Mirrors.mono {l l' : Link} (h : l.Mirrors κ l') (hκ : ∀ n k k', κ n k k' → κ' n k k') :
    l.Mirrors κ' l' :=
  ⟨h.1, hκ _ _ _ h.2⟩

theorem Link.Mirrors.mono_option {l l' : Option Link} (h : Option.Rel (Link.Mirrors κ) l l')
    (hκ : ∀ n k k', κ n k k' → κ' n k k') : Option.Rel (Link.Mirrors κ') l l' := by
  cases h with
  | some h => exact .some (h.mono hκ)
  | none => exact .none

theorem Connection.Mirrors.mono {c c' : Connection} (h : c.Mirrors κ c')
    (hκ : ∀ n k k', κ n k k' → κ' n k k') : c.Mirrors κ' c' :=
  ⟨h.link.mono hκ, h.count⟩

theorem Source.Mirrors.mono {s s' : Source} (h : s.Mirrors κ s') (hκ : ∀ n k k', κ n k k' → κ' n k k') :
    s.Mirrors κ' s' := by
  cases h with
  | firing n h => exact .firing n (Link.Mirrors.mono_option h hκ)
  | wait v ticket h => exact .wait v ticket (Link.Mirrors.mono_option h hκ)

theorem Future.Mirrors.mono {u u' : Future} (h : u.Mirrors κ u') (hκ : ∀ n k k', κ n k k' → κ' n k k') :
    u.Mirrors κ' u' :=
  ⟨h.source.mono hκ, h.outcome, h.watcher, h.completed⟩

/-- Only the pairs of a token's own keys say anything about its registry. -/
theorem Token.Mirrors.mono {n : Nat} {t : Token Slots} {t' : Token Arrivals} (h : t.Mirrors κ n t')
    (hκ : ∀ n k k', κ n k k' → κ' n k k') (hn : ∀ k k', κ' n k k' → κ n k k') : t.Mirrors κ' n t' :=
  ⟨h.count, h.holders, ⟨h.registry.models, fun k k' hk => h.registry.fits k k' (hn k k' hk)⟩,
    Link.Mirrors.mono_option h.parent hκ⟩

/-- A token without keys. -/
theorem Token.mirrors_new {n : Nat} (hκ : ∀ k k', ¬ κ n k k') (count : Nat) {parent parent' : Option Link}
    (hp : Option.Rel (Link.Mirrors κ) parent parent') :
    Token.Mirrors κ n { registry := Registry.empty, parent := parent, count := count }
      { registry := Registry.empty, parent := parent', count := count } :=
  ⟨rfl, rfl, ⟨Slots.models_empty, fun k k' hk => absurd hk (hκ k k')⟩, hp⟩

theorem Token.Mirrors.isFired {n : Nat} {t : Token Slots} {t' : Token Arrivals} (h : t.Mirrors κ n t') :
    t.isFired = t'.isFired := by
  rw [Token.isFired, Token.isFired, h.count]

theorem Token.Mirrors.size {n : Nat} {t : Token Slots} {t' : Token Arrivals} (h : t.Mirrors κ n t') :
    t.size = t'.size :=
  congrArg List.length h.registry.models.toList

namespace World

variable {w : World Slots} {v : World Arrivals}

/-! ## Tables -/

theorem Mirrors.insertToken (h : w.Mirrors κ v) {n : Nat} (hn : n < w.next) {t : Token Slots} {t' : Token Arrivals}
    (ht : t.Mirrors κ n t') :
    World.Mirrors κ { w with tokens := w.tokens.insert n t } { v with tokens := v.tokens.insert n t' } := by
  refine { h with tokens := h.tokens.insert ht fun _ _ _ _ => id, token_lt := fun j hj => ?_ }
  rw [Table.get?_insert] at hj
  split at hj
  · rename_i hnj
    exact hnj ▸ hn
  · exact h.token_lt j hj

theorem Mirrors.modifyToken (h : w.Mirrors κ v) {n : Nat} {f : Token Slots → Token Slots}
    {g : Token Arrivals → Token Arrivals} (hf : ∀ t t', t.Mirrors κ n t' → (f t).Mirrors κ n (g t')) :
    World.Mirrors κ { w with tokens := w.tokens.modify n f } { v with tokens := v.tokens.modify n g } := by
  refine { h with tokens := h.tokens.modify hf, token_lt := fun j hj => h.token_lt j ?_ }
  rw [Table.get?_modify] at hj
  split at hj
  · rwa [Option.isSome_map] at hj
  · exact hj

theorem Mirrors.eraseToken (h : w.Mirrors κ v) (n : Nat) :
    World.Mirrors κ { w with tokens := w.tokens.erase n } { v with tokens := v.tokens.erase n } := by
  refine { h with tokens := h.tokens.erase n, token_lt := fun j hj => h.token_lt j ?_ }
  rw [Table.get?_erase] at hj
  split at hj
  · cases hj
  · exact hj

theorem Mirrors.insertConnection (h : w.Mirrors κ v) (c : Nat) (k k' : Connection) (hk : k.Mirrors κ k') :
    World.Mirrors κ { w with connections := w.connections.insert c k }
      { v with connections := v.connections.insert c k' } :=
  { h with connections := h.connections.insert hk fun _ _ _ _ => id }

theorem Mirrors.modifyConnection (h : w.Mirrors κ v) {n : Nat} {f g : Connection → Connection}
    (hf : ∀ k k', k.Mirrors κ k' → (f k).Mirrors κ (g k')) :
    World.Mirrors κ { w with connections := w.connections.modify n f }
      { v with connections := v.connections.modify n g } :=
  { h with connections := h.connections.modify hf }

theorem Mirrors.insertFuture (h : w.Mirrors κ v) (f : Nat) (u u' : Future) (hu : u.Mirrors κ u') :
    World.Mirrors κ { w with futures := w.futures.insert f u } { v with futures := v.futures.insert f u' } :=
  { h with futures := h.futures.insert hu fun _ _ _ _ => id }

theorem Mirrors.eraseFuture (h : w.Mirrors κ v) (f : Nat) :
    World.Mirrors κ { w with futures := w.futures.erase f } { v with futures := v.futures.erase f } :=
  { h with futures := h.futures.erase f }

theorem Mirrors.insertCondvar (h : w.Mirrors κ v) (c : Nat) (cv : Condvar Nat) :
    World.Mirrors κ { w with condvars := w.condvars.insert c cv } { v with condvars := v.condvars.insert c cv } :=
  { h with condvars := congrArg (·.insert c cv) h.condvars }

theorem Mirrors.note (h : w.Mirrors κ v) (e : Event) : (w.note e).Mirrors κ (v.note e) :=
  { h with log := congrArg (e :: ·) h.log }

/-- The number of the next object moves on. -/
theorem Mirrors.advance (h : w.Mirrors κ v) :
    World.Mirrors κ { w with next := w.next + 1 } { v with next := v.next + 1 } :=
  { h with
    next := congrArg (· + 1) h.next
    token_lt := fun n hn => Nat.lt_succ_of_lt (h.token_lt n hn)
    pair_lt := fun n k k' hk => Nat.lt_succ_of_lt (h.pair_lt n k k' hk) }

/-! ## Registrations -/

/-- The keys of the new registration are one more pair. -/
theorem Mirrors.register (h : w.Mirrors κ v) {n : Nat} {t : Token Slots} {t' : Token Arrivals}
    (hn : w.tokens.get? n = some t) (ht : t.Mirrors κ n t') (cb : Callback) :
    (w.register n t cb).1.Mirrors (κ.add (w.register n t cb).2 (v.register n t' cb).2) (v.register n t' cb).1 := by
  have hlt : n < w.next := h.token_lt n (by rw [hn]; rfl)
  have hle := @KeyPairs.le_add κ (w.register n t cb).2 (v.register n t' cb).2
  refine { h with tokens := ?_, connections := ?_, futures := ?_, token_lt := ?_, pair_lt := ?_ }
  · refine h.tokens.insert ⟨ht.count, ht.holders, ?_, Link.Mirrors.mono_option ht.parent hle⟩ ?_
    · refine ⟨(ht.registry.insert cb).models, fun k k' hk => (ht.registry.insert cb).fits k k' ?_⟩
      exact hk.imp_right And.right
    · -- The other tokens have the same pairs as before.
      exact fun j t t' hj ht => ht.mono hle fun k k' hk => hk.resolve_right fun he => hj he.1
  · exact h.connections.mono fun _ _ _ hc => hc.mono hle
  · exact h.futures.mono fun _ _ _ hu => hu.mono hle
  · intro j hj
    simp only [World.register, Table.get?_insert] at hj
    split at hj
    · rename_i hnj
      exact hnj ▸ hlt
    · exact h.token_lt j hj
  · rintro j k k' (hk | ⟨rfl, -⟩)
    · exact h.pair_lt j k k' hk
    · exact hlt

theorem Mirrors.unlink (h : w.Mirrors κ v) {l l' : Link} (hl : l.Mirrors κ l') :
    (w.unlink l).Mirrors κ (v.unlink l') := by
  obtain ⟨n, k⟩ := l
  obtain ⟨_, k'⟩ := l'
  obtain ⟨rfl, hk⟩ := hl
  exact h.modifyToken fun t t' ht => ⟨ht.count, ht.holders, ht.registry.remove hk, ht.parent⟩

theorem Mirrors.unlink? (h : w.Mirrors κ v) {l l' : Option Link} (hl : Option.Rel (Link.Mirrors κ) l l') :
    (w.unlink? l).Mirrors κ (v.unlink? l') := by
  cases hl with
  | some hl => exact h.unlink hl
  | none => exact h

theorem Mirrors.hold (h : w.Mirrors κ v) (n : Nat) : (w.hold n).Mirrors κ (v.hold n) :=
  h.modifyToken fun _ _ ht => ⟨ht.count, congrArg (· + 1) ht.holders, ht.registry, ht.parent⟩

theorem Mirrors.release (h : w.Mirrors κ v) (n : Nat) : (w.release n).Mirrors κ (v.release n) := by
  unfold World.release
  rcases h.tokens.cases n with ⟨hn, hn'⟩ | ⟨t, t', hn, hn', ht⟩ <;> rw [hn, hn']
  · exact h
  · simp only [← ht.holders]
    split
    · exact (h.eraseToken n).unlink? ht.parent
    · exact h.insertToken (h.token_lt n (by rw [hn]; rfl)) ⟨ht.count, rfl, ht.registry, ht.parent⟩

theorem Mirrors.takeAll (h : w.Mirrors κ v) (n : Nat) :
    (w.takeAll n).1.Mirrors κ (v.takeAll n).1 ∧ (w.takeAll n).2 = (v.takeAll n).2 := by
  unfold World.takeAll
  rcases h.tokens.cases n with ⟨hn, hn'⟩ | ⟨t, t', hn, hn', ht⟩ <;> rw [hn, hn']
  · exact ⟨h, rfl⟩
  · refine ⟨h.insertToken (h.token_lt n (by rw [hn]; rfl)) ?_, ht.registry.models.toList⟩
    exact ⟨congrArg (· + 1) ht.count, ht.holders, ht.registry.clear, ht.parent⟩

/-! ## Outcomes -/

theorem Mirrors.deliver (h : w.Mirrors κ v) (f : Nat) (o : Outcome) : (w.deliver f o).Mirrors κ (v.deliver f o) := by
  unfold World.deliver
  rcases h.futures.cases f with ⟨hf, hf'⟩ | ⟨u, u', hf, hf', hu⟩ <;> rw [hf, hf']
  · exact h
  · have hnew := h.insertFuture f { u with outcome := some o, watcher := none }
      { u' with outcome := some o, watcher := none } ⟨hu.source, rfl, rfl, hu.completed⟩
    simp only [← hu.outcome, ← hu.watcher]
    split
    · exact h
    · cases u.watcher with
      | some name => exact hnew.note _
      | none => exact hnew

theorem Mirrors.abortWait (h : w.Mirrors κ v) (c ticket : Nat) : (w.abortWait c ticket).Mirrors κ (v.abortWait c ticket) := by
  unfold World.abortWait
  rw [show v.condvars.get? c = w.condvars.get? c by rw [h.condvars]]
  cases w.condvars.get? c with
  | none => exact h
  | some cv =>
    dsimp only
    cases cv.owner? ticket with
    | none => exact h
    | some f => exact (h.insertCondvar c (cv.withdraw ticket)).deliver f .aborted

theorem Mirrors.releaseAll (h : w.Mirrors κ v) (c : Nat) (o : Outcome) : (w.releaseAll c o).Mirrors κ (v.releaseAll c o) := by
  unfold World.releaseAll
  rw [show v.condvars.get? c = w.condvars.get? c by rw [h.condvars]]
  cases w.condvars.get? c with
  | none => exact h
  | some cv =>
    have hfold : ∀ (owners : List Nat) {w : World Slots} {v : World Arrivals}, w.Mirrors κ v →
        (owners.foldl (fun w f => w.deliver f o) w).Mirrors κ (owners.foldl (fun v f => v.deliver f o) v) := by
      intro owners
      induction owners with
      | nil => exact id
      | cons f owners ih => exact fun h => ih (h.deliver f o)
    exact hfold _ (h.insertCondvar c cv.release.2)

/-! ## Dropping -/

theorem Mirrors.dropConnection (h : w.Mirrors κ v) (c : Nat) : (w.dropConnection c).Mirrors κ (v.dropConnection c) := by
  unfold World.dropConnection
  rcases h.connections.cases c with ⟨hc, hc'⟩ | ⟨k, k', hc, hc', hk⟩ <;> rw [hc, hc']
  · exact h
  · have herased : World.Mirrors κ { w with connections := w.connections.erase c }
        { v with connections := v.connections.erase c } := { h with connections := h.connections.erase c }
    exact herased.unlink hk.link

theorem Mirrors.dropCondvar (h : w.Mirrors κ v) (c : Nat) : (w.dropCondvar c).Mirrors κ (v.dropCondvar c) :=
  { h.releaseAll c .aborted with condvars := congrArg (·.erase c) (h.releaseAll c .aborted).condvars }

theorem Mirrors.dropFuture (h : w.Mirrors κ v) (f : Nat) : (w.dropFuture f).Mirrors κ (v.dropFuture f) := by
  unfold World.dropFuture
  rcases h.futures.cases f with ⟨hf, hf'⟩ | ⟨u, u', hf, hf', hu⟩ <;> rw [hf, hf']
  · exact h
  · obtain ⟨source, _, _, completed⟩ := u
    obtain ⟨source', _, _, _⟩ := u'
    obtain ⟨hs, -, -, rfl⟩ := hu
    cases hs with
    | firing n hl =>
      simp only
      split
      · exact h.eraseFuture f
      · exact ((h.eraseFuture f).unlink? hl).release n
    | wait c ticket hl => exact ((h.abortWait c ticket).eraseFuture f).unlink? hl

/-! ## Naming -/

theorem Mirrors.nameToken (h : w.Mirrors κ v) (name : Name) (n : Nat) : (w.nameToken name n).Mirrors κ (v.nameToken name n) := by
  have hnamed : World.Mirrors κ { w with tokenNames := w.tokenNames.insert name n }
      { v with tokenNames := v.tokenNames.insert name n } :=
    { h with tokenNames := congrArg (·.insert name n) h.tokenNames }
  unfold World.nameToken
  rw [← h.tokenNames] at hnamed ⊢
  cases w.tokenNames.get? name with
  | none => exact hnamed
  | some m => exact hnamed.release m

theorem Mirrors.nameConnection (h : w.Mirrors κ v) (name : Name) (c : Nat) :
    (w.nameConnection name c).Mirrors κ (v.nameConnection name c) := by
  have hnamed : World.Mirrors κ { w with connectionNames := w.connectionNames.insert name c }
      { v with connectionNames := v.connectionNames.insert name c } :=
    { h with connectionNames := congrArg (·.insert name c) h.connectionNames }
  unfold World.nameConnection
  rw [← h.connectionNames] at hnamed ⊢
  cases w.connectionNames.get? name with
  | none => exact hnamed
  | some d => exact hnamed.dropConnection d

theorem Mirrors.nameCondvar (h : w.Mirrors κ v) (name : Name) (c : Nat) :
    (w.nameCondvar name c).Mirrors κ (v.nameCondvar name c) := by
  have hnamed : World.Mirrors κ { w with condvarNames := w.condvarNames.insert name c }
      { v with condvarNames := v.condvarNames.insert name c } :=
    { h with condvarNames := congrArg (·.insert name c) h.condvarNames }
  unfold World.nameCondvar
  rw [← h.condvarNames] at hnamed ⊢
  cases w.condvarNames.get? name with
  | none => exact hnamed
  | some d => exact hnamed.dropCondvar d

theorem Mirrors.nameFuture (h : w.Mirrors κ v) (name : Name) (f : Nat) :
    (w.nameFuture name f).Mirrors κ (v.nameFuture name f) := by
  have hnamed : World.Mirrors κ { w with futureNames := w.futureNames.insert name f }
      { v with futureNames := v.futureNames.insert name f } :=
    { h with futureNames := congrArg (·.insert name f) h.futureNames }
  unfold World.nameFuture
  rw [← h.futureNames] at hnamed ⊢
  cases w.futureNames.get? name with
  | none => exact hnamed
  | some g => exact hnamed.dropFuture g

/-! ## Commands -/

theorem Mirrors.token? (h : w.Mirrors κ v) (name : Name) : (w.token? name = none ∧ v.token? name = none) ∨
    ∃ n t t', w.token? name = some (n, t) ∧ v.token? name = some (n, t') ∧ w.tokens.get? n = some t ∧ t.Mirrors κ n t' := by
  unfold World.token?
  rw [← h.tokenNames]
  cases w.tokenNames.get? name with
  | none => exact .inl ⟨rfl, rfl⟩
  | some n =>
    rcases h.tokens.cases n with ⟨hn, hn'⟩ | ⟨t, t', hn, hn', ht⟩
    · exact .inl ⟨by simp [hn], by simp [hn']⟩
    · exact .inr ⟨n, t, t', by simp [hn], by simp [hn'], hn, ht⟩

theorem Mirrors.bind_token? (h : w.Mirrors κ v) (name : Option Name) :
    (name.bind w.token? = none ∧ name.bind v.token? = none) ∨ ∃ n t t', name.bind w.token? = some (n, t) ∧
      name.bind v.token? = some (n, t') ∧ w.tokens.get? n = some t ∧ t.Mirrors κ n t' := by
  cases name with
  | none => exact .inl ⟨rfl, rfl⟩
  | some name => exact h.token? name

theorem Mirrors.connection? (h : w.Mirrors κ v) (name : Name) :
    (w.connection? name = none ∧ v.connection? name = none) ∨
    ∃ c k k', w.connection? name = some (c, k) ∧ v.connection? name = some (c, k') ∧ k.Mirrors κ k' := by
  unfold World.connection?
  rw [← h.connectionNames]
  cases w.connectionNames.get? name with
  | none => exact .inl ⟨rfl, rfl⟩
  | some c =>
    rcases h.connections.cases c with ⟨hc, hc'⟩ | ⟨k, k', hc, hc', hk⟩
    · exact .inl ⟨by simp [hc], by simp [hc']⟩
    · exact .inr ⟨c, k, k', by simp [hc], by simp [hc'], hk⟩

theorem Mirrors.condvar? (h : w.Mirrors κ v) (name : Name) : v.condvar? name = w.condvar? name := by
  rw [World.condvar?, World.condvar?, h.condvarNames, h.condvars]

theorem Mirrors.future? (h : w.Mirrors κ v) (name : Name) : (w.future? name = none ∧ v.future? name = none) ∨
    ∃ f u u', w.future? name = some (f, u) ∧ v.future? name = some (f, u') ∧ u.Mirrors κ u' := by
  unfold World.future?
  rw [← h.futureNames]
  cases w.futureNames.get? name with
  | none => exact .inl ⟨rfl, rfl⟩
  | some f =>
    rcases h.futures.cases f with ⟨hf, hf'⟩ | ⟨u, u', hf, hf', hu⟩
    · exact .inl ⟨by simp [hf], by simp [hf']⟩
    · exact .inr ⟨f, u, u', by simp [hf], by simp [hf'], hu⟩

theorem Mirrors.makeToken (h : w.Mirrors κ v) (name : Name) (parent : Option Name) :
    ∃ κ', (w.makeToken name parent).Mirrors κ' (v.makeToken name parent) := by
  obtain ⟨tokens, connections, condvars, futures, tokenNames, connectionNames, condvarNames, futureNames, next, log⟩ := v
  obtain rfl : w.next = next := h.next
  have hlt : w.next < w.next + 1 := Nat.lt_succ_self _
  have hnew : ∀ k k', ¬ κ w.next k k' := fun k k' hk => Nat.lt_irrefl _ (h.pair_lt _ k k' hk)
  unfold World.makeToken
  dsimp only
  rcases h.advance.bind_token? parent with ⟨hp, hp'⟩ | ⟨p, t, t', hp, hp', htok, ht⟩ <;> rw [hp, hp']
  · exact ⟨κ, (h.advance.insertToken hlt (Token.mirrors_new hnew 0 .none)).nameToken name _⟩
  · have hne : w.next ≠ p := (Nat.ne_of_lt (h.token_lt p (by rw [htok]; rfl))).symm
    have hreg := h.advance.register htok ht (.fireChild w.next)
    simp only [← ht.isFired]
    refine ⟨_, (hreg.insertToken hlt (Token.mirrors_new ?_ _ (.some (Link.mirrors_add _ _ _ rfl)))).nameToken name _⟩
    exact fun k k' hk => hk.elim (hnew k k') fun he => hne he.1

theorem Mirrors.connect (h : w.Mirrors κ v) {n : Nat} {t : Token Slots} {t' : Token Arrivals}
    (hn : w.tokens.get? n = some t) (ht : t.Mirrors κ n t') (name : Name) (script : List Command) :
    ∃ κ', (w.connect n t name script).Mirrors κ' (v.connect n t' name script) := by
  obtain ⟨tokens, connections, condvars, futures, tokenNames, connectionNames, condvarNames, futureNames, next, log⟩ := v
  obtain rfl : w.next = next := h.next
  have hreg := h.advance.register hn ht (.script w.next name script)
  have hconn := hreg.insertConnection w.next { link := _ } { link := _ } ⟨Link.mirrors_add _ _ _ rfl, rfl⟩
  exact ⟨_, hconn.nameConnection name w.next⟩

theorem Mirrors.makeWait (h : w.Mirrors κ v) (c : Nat) (cv : Condvar Nat) (name : Name) (token : Option Name) :
    ∃ κ', (w.makeWait c cv name (token.bind w.token?)).Mirrors κ' (v.makeWait c cv name (token.bind v.token?)) := by
  obtain ⟨tokens, connections, condvars, futures, tokenNames, connectionNames, condvarNames, futureNames, next, log⟩ := v
  obtain rfl : w.next = next := h.next
  have hreg := h.advance.insertCondvar c (cv.register w.next).1
  unfold World.makeWait
  dsimp only
  rcases h.bind_token? token with ⟨hp, hp'⟩ | ⟨n, t, t', hp, hp', htok, ht⟩ <;> rw [hp, hp']
  · exact ⟨κ, (hreg.insertFuture w.next _ _ ⟨.wait c _ .none, rfl, rfl, rfl⟩).nameFuture name _⟩
  · have hlink := hreg.register htok ht (.abortWait c cv.nextTicket)
    have hfut := hlink.insertFuture w.next { source := .wait c cv.nextTicket (some _) }
      { source := .wait c cv.nextTicket (some _) } ⟨.wait c _ (.some (Link.mirrors_add _ _ _ rfl)), rfl, rfl, rfl⟩
    simp only [← ht.isFired]
    split
    · exact ⟨_, (hfut.abortWait c cv.nextTicket).nameFuture name _⟩
    · exact ⟨_, hfut.nameFuture name _⟩

theorem Mirrors.pollFuture (h : w.Mirrors κ v) (name : Name) (f : Nat) {u u' : Future} (hu : u.Mirrors κ u') :
    ∃ κ', (w.pollFuture name f u).1.Mirrors κ' (v.pollFuture name f u').1 ∧
      (w.pollFuture name f u).2 = (v.pollFuture name f u').2 := by
  obtain ⟨source, outcome, watcher, completed⟩ := u
  obtain ⟨source', _, _, _⟩ := u'
  obtain ⟨hs, rfl, rfl, rfl⟩ := hu
  unfold World.pollFuture
  cases completed with
  | true => exact ⟨κ, h, rfl⟩
  | false =>
    cases hs with
    | wait c ticket hl =>
      rcases outcome with _ | _ | _
      · exact ⟨κ, h.insertFuture f _ _ ⟨.wait c ticket hl, rfl, rfl, rfl⟩, rfl⟩
      · exact ⟨κ, h.insertFuture f _ _ ⟨.wait c ticket hl, rfl, rfl, rfl⟩, rfl⟩
      · exact ⟨κ, h.insertFuture f _ _ ⟨.wait c ticket hl, rfl, rfl, rfl⟩, rfl⟩
    | firing n hl =>
      cases hl with
      | none =>
        dsimp only
        rcases h.tokens.cases n with ⟨hn, hn'⟩ | ⟨t, t', hn, hn', ht⟩ <;> rw [hn, hn']
        · exact ⟨κ, h, rfl⟩
        · have hreg := h.register hn ht (.complete f)
          have hl := Link.mirrors_add κ (w.register n t (.complete f)).2 (v.register n t' (.complete f)).2 rfl
          simp only [← ht.isFired]
          cases t.isFired with
          | true =>
            exact ⟨_, ((hreg.unlink hl).insertFuture f _ _ ⟨.firing n .none, rfl, rfl, rfl⟩).release n, rfl⟩
          | false => exact ⟨_, hreg.insertFuture f _ _ ⟨.firing n (.some hl), rfl, rfl, rfl⟩, rfl⟩
      | some hl =>
        cases outcome with
        | none => exact ⟨κ, h.insertFuture f _ _ ⟨.firing n (.some hl), rfl, rfl, rfl⟩, rfl⟩
        | some o =>
          have hdone := (h.unlink hl).insertFuture f ⟨.firing n (some _), some o, watcher, true⟩
            ⟨.firing n (some _), some o, watcher, true⟩ ⟨.firing n (.some hl), rfl, rfl, rfl⟩
          exact ⟨κ, hdone.release n, rfl⟩

theorem Mirrors.dropToken? (h : w.Mirrors κ v) (name : Name) (n : Option Nat) :
    World.Mirrors κ (match n with | some n => { w with tokenNames := w.tokenNames.erase name }.release n | none => w)
      (match n with | some n => { v with tokenNames := v.tokenNames.erase name }.release n | none => v) := by
  cases n with
  | none => exact h
  | some n =>
    have herased : World.Mirrors κ { w with tokenNames := w.tokenNames.erase name }
        { v with tokenNames := v.tokenNames.erase name } :=
      { h with tokenNames := congrArg (·.erase name) h.tokenNames }
    exact herased.release n

theorem Mirrors.dropConnection? (h : w.Mirrors κ v) (name : Name) (c : Option Nat) :
    World.Mirrors κ
      (match c with | some c => { w with connectionNames := w.connectionNames.erase name }.dropConnection c | none => w)
      (match c with | some c => { v with connectionNames := v.connectionNames.erase name }.dropConnection c | none => v) := by
  cases c with
  | none => exact h
  | some c =>
    have herased : World.Mirrors κ { w with connectionNames := w.connectionNames.erase name }
        { v with connectionNames := v.connectionNames.erase name } :=
      { h with connectionNames := congrArg (·.erase name) h.connectionNames }
    exact herased.dropConnection c

theorem Mirrors.dropCondvar? (h : w.Mirrors κ v) (name : Name) (c : Option Nat) :
    World.Mirrors κ
      (match c with | some c => { w with condvarNames := w.condvarNames.erase name }.dropCondvar c | none => w)
      (match c with | some c => { v with condvarNames := v.condvarNames.erase name }.dropCondvar c | none => v) := by
  cases c with
  | none => exact h
  | some c =>
    have herased : World.Mirrors κ { w with condvarNames := w.condvarNames.erase name }
        { v with condvarNames := v.condvarNames.erase name } :=
      { h with condvarNames := congrArg (·.erase name) h.condvarNames }
    exact herased.dropCondvar c

theorem Mirrors.dropFuture? (h : w.Mirrors κ v) (name : Name) (f : Option Nat) :
    World.Mirrors κ
      (match f with | some f => { w with futureNames := w.futureNames.erase name }.dropFuture f | none => w)
      (match f with | some f => { v with futureNames := v.futureNames.erase name }.dropFuture f | none => v) := by
  cases f with
  | none => exact h
  | some f =>
    have herased : World.Mirrors κ { w with futureNames := w.futureNames.erase name }
        { v with futureNames := v.futureNames.erase name } :=
      { h with futureNames := congrArg (·.erase name) h.futureNames }
    exact herased.dropFuture f

theorem Mirrors.dropNamed (h : w.Mirrors κ v) (name : Name) :
    (w.dropNamed name).1.Mirrors κ (v.dropNamed name).1 ∧ (w.dropNamed name).2 = (v.dropNamed name).2 := by
  have ht : v.tokenNames.get? name = w.tokenNames.get? name := by rw [h.tokenNames]
  have hc : v.connectionNames.get? name = w.connectionNames.get? name := by rw [h.connectionNames]
  have hv : v.condvarNames.get? name = w.condvarNames.get? name := by rw [h.condvarNames]
  have hf : v.futureNames.get? name = w.futureNames.get? name := by rw [h.futureNames]
  unfold World.dropNamed
  rw [ht, hc, hv, hf]
  exact ⟨(((h.dropToken? name _).dropConnection? name _).dropCondvar? name _).dropFuture? name _, rfl⟩

theorem Mirrors.inspect (h : w.Mirrors κ v) (name : Name) : w.inspect name = v.inspect name := by
  unfold World.inspect
  rw [h.condvar? name]
  rcases h.token? name with ⟨hn, hn'⟩ | ⟨n, t, t', hn, hn', -, ht⟩
  · rcases h.connection? name with ⟨hc, hc'⟩ | ⟨c, k, k', hc, hc', hk⟩
    · rw [hn, hn', hc, hc']
      cases w.condvar? name <;> rfl
    · simp only [hn, hn', hc, hc', hk.count]
  · simp only [hn, hn', ht.count, ht.size]

theorem Mirrors.execute (h : w.Mirrors κ v) (command : Command) :
    ∃ κ', (w.execute command).1.Mirrors κ' (v.execute command).1 ∧ (w.execute command).2 = (v.execute command).2 := by
  cases command with
  | token name parent =>
    obtain ⟨κ', hκ⟩ := h.makeToken name parent
    exact ⟨κ', hκ, rfl⟩
  | fire name =>
    unfold World.execute
    dsimp only
    rcases h.token? name with ⟨hn, hn'⟩ | ⟨n, t, t', hn, hn', -, -⟩ <;> rw [hn, hn']
    · exact ⟨κ, h, rfl⟩
    · obtain ⟨hw, hcb⟩ := (h.hold n).takeAll n
      refine ⟨κ, hw, ?_⟩
      dsimp only
      rw [hcb]
  | connect token name script =>
    unfold World.execute
    dsimp only
    rcases h.token? token with ⟨hn, hn'⟩ | ⟨n, t, t', hn, hn', htok, ht⟩ <;> rw [hn, hn']
    · exact ⟨κ, h, rfl⟩
    · obtain ⟨κ', hκ⟩ := h.connect htok ht name script
      exact ⟨κ', hκ, rfl⟩
  | cancelled token name =>
    obtain ⟨tokens, connections, condvars, futures, tokenNames, connectionNames, condvarNames, futureNames, next, log⟩ := v
    obtain rfl : w.next = next := h.next
    unfold World.execute
    dsimp only
    rcases h.token? token with ⟨hn, hn'⟩ | ⟨n, t, t', hn, hn', -, -⟩ <;> rw [hn, hn']
    · exact ⟨κ, h, rfl⟩
    · have hfut := (h.hold n).advance.insertFuture w.next { source := .firing n none } { source := .firing n none }
        ⟨.firing n .none, rfl, rfl, rfl⟩
      exact ⟨κ, hfut.nameFuture name w.next, rfl⟩
  | condvar name =>
    obtain ⟨tokens, connections, condvars, futures, tokenNames, connectionNames, condvarNames, futureNames, next, log⟩ := v
    obtain rfl : w.next = next := h.next
    exact ⟨κ, (h.advance.insertCondvar w.next {}).nameCondvar name w.next, rfl⟩
  | notify name =>
    unfold World.execute
    dsimp only
    rw [h.condvar? name]
    cases w.condvar? name with
    | none => exact ⟨κ, h, rfl⟩
    | some v => exact ⟨κ, h.releaseAll v.1 .ok, rfl⟩
  | wait condvar name token =>
    unfold World.execute
    dsimp only
    rw [h.condvar? condvar]
    cases w.condvar? condvar with
    | none => exact ⟨κ, h, rfl⟩
    | some v =>
      obtain ⟨κ', hκ⟩ := h.makeWait v.1 v.2 name token
      exact ⟨κ', hκ, rfl⟩
  | poll name =>
    unfold World.execute
    dsimp only
    rcases h.future? name with ⟨hf, hf'⟩ | ⟨f, u, u', hf, hf', hu⟩ <;> rw [hf, hf']
    · exact ⟨κ, h, rfl⟩
    · obtain ⟨κ', hκ, hr⟩ := h.pollFuture name f hu
      refine ⟨κ', hκ, ?_⟩
      dsimp only
      rw [hr]
  | drop name =>
    obtain ⟨hκ, hr⟩ := h.dropNamed name
    refine ⟨κ, hκ, ?_⟩
    unfold World.execute
    dsimp only
    rw [hr]
  | inspect name =>
    refine ⟨κ, h, ?_⟩
    unfold World.execute
    dsimp only
    rw [h.inspect name]
  | unknown => exact ⟨κ, h, rfl⟩

/-! ## Runs -/

theorem Mirrors.noteResult (h : w.Mirrors κ v) (within : Option Name) (result : Result) :
    (w.noteResult within result).Mirrors κ (v.noteResult within result) := by
  unfold World.noteResult
  cases within with
  | none => exact h
  | some name =>
    dsimp only
    split
    · exact h
    · exact h.note _

theorem Mirrors.step (h : w.Mirrors κ v) (task : Task) :
    ∃ κ', (w.step task).1.Mirrors κ' (v.step task).1 ∧ (w.step task).2 = (v.step task).2 := by
  unfold World.step
  cases task with
  | run within command =>
    obtain ⟨κ', hκ, hr⟩ := h.execute command
    refine ⟨κ', ?_, congrArg Prod.fst hr⟩
    show World.Mirrors κ' ((w.execute command).1.noteResult within (w.execute command).2.2)
      ((v.execute command).1.noteResult within (v.execute command).2.2)
    rw [hr]
    exact hκ.noteResult within _
  | invoke callback =>
    cases callback with
    | script c name commands =>
      have hcounted := h.modifyConnection (n := c) (f := fun k => { k with count := k.count + 1 })
        (g := fun k => { k with count := k.count + 1 }) fun k k' hk => ⟨hk.link, congrArg (· + 1) hk.count⟩
      exact ⟨κ, hcounted.note _, rfl⟩
    | fireChild n =>
      dsimp only
      rcases h.tokens.cases n with ⟨hn, hn'⟩ | ⟨t, t', hn, hn', -⟩ <;> rw [hn, hn']
      · exact ⟨κ, h, rfl⟩
      · obtain ⟨hw, hcb⟩ := h.takeAll n
        refine ⟨κ, hw, ?_⟩
        dsimp only
        rw [hcb]
    | abortWait c ticket => exact ⟨κ, h.abortWait c ticket, rfl⟩
    | complete f => exact ⟨κ, h.deliver f .ok, rfl⟩
  | finish held =>
    cases held with
    | none => exact ⟨κ, h, rfl⟩
    | some n => exact ⟨κ, h.release n, rfl⟩

theorem Mirrors.runTasks (h : w.Mirrors κ v) (n : Nat) (tasks : List Task) :
    ∃ κ', (World.runTasks n w tasks).1.Mirrors κ' (World.runTasks n v tasks).1 ∧
      (World.runTasks n w tasks).2 = (World.runTasks n v tasks).2 := by
  induction n generalizing w v κ tasks with
  | zero => exact ⟨κ, h, rfl⟩
  | succ n ih =>
    cases tasks with
    | nil => exact ⟨κ, h, rfl⟩
    | cons task rest =>
      obtain ⟨κ', hκ, hr⟩ := h.step task
      simp only [World.runTasks, hr]
      exact ih hκ _

theorem Mirrors.weight (h : w.Mirrors κ v) : w.weight = v.weight := by
  refine congrArg List.sum (h.tokens.map_values fun n t t' ht => ?_)
  rw [show Registry.toList t.registry = Registry.toList t'.registry from ht.registry.models.toList]

theorem Mirrors.fuel (h : w.Mirrors κ v) (tasks : List Task) : w.fuel tasks = v.fuel tasks := by
  rw [World.fuel, World.fuel, h.weight]

theorem Mirrors.perform (h : w.Mirrors κ v) (command : Command) :
    ∃ κ', (w.perform command).1.Mirrors κ' (v.perform command).1 ∧ (w.perform command).2 = (v.perform command).2 := by
  obtain ⟨κ', hκ, hr⟩ := h.execute command
  obtain ⟨κ'', hκ', -⟩ := hκ.runTasks ((w.execute command).1.fuel (w.execute command).2.1) (w.execute command).2.1
  refine ⟨κ'', ?_, congrArg (fun r => r.2) hr⟩
  show World.Mirrors κ'' (World.runTasks _ _ _).1 (World.runTasks
    ((v.execute command).1.fuel (v.execute command).2.1) _ (v.execute command).2.1).1
  rw [← hκ.fuel, ← hr]
  exact hκ'

end World

end Gateway.Signal

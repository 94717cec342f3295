import Gateway.Proofs.Signal.Tickets
/-!
# What is connected where

A connection, a child token and a future each keep the link of one registration, and every
callback that is connected to a token has such a keeper, whose link leads to it and to
nothing else (`World.Linked`). So what a keeper disconnects is its own callback.

With that, moves are of four kinds as far as registrations go (`Rewires`): one keeper
loses its link and with it its callback, one gains a link, a callback is invoked, or all
callbacks of a token are taken. What is proved of registrations later on is proved for
these four kinds.
-/
namespace Gateway.Signal

/-! ## Keepers and owners -/

/-- Whom a callback is for. A callback has one owner and no other callback has the same. -/
inductive Owner where
  | connection (c : Nat)
  | child (n : Nat)
  | wait (condvar ticket : Nat)
  | firing (f : Nat)
  deriving DecidableEq

/-- Who a callback is registered for. -/
def Callback.owner : Callback → Owner
  | .script c _ _ => .connection c
  | .fireChild n => .child n
  | .abortWait v ticket => .wait v ticket
  | .complete f => .firing f

/-- What can keep a link. -/
inductive Keeper where
  | connection (c : Nat)
  | token (n : Nat)
  | future (f : Nat)
  deriving DecidableEq

/-- The link that a future keeps, and the owner of the callback it leads to. -/
def Future.kept? (f : Nat) (u : Future) : Option (Link × Owner) :=
  match u.source with
  | .wait v ticket link => link.map fun l => (l, .wait v ticket)
  | .firing _ link => if u.completed then none else link.map fun l => (l, .firing f)

theorem Future.of_kept? {f : Nat} {u : Future} {l : Link} {o : Owner} (h : u.kept? f = some (l, o)) :
    (∃ v ticket, u.source = .wait v ticket (some l) ∧ o = .wait v ticket) ∨
      ∃ n, u.source = .firing n (some l) ∧ u.completed = false ∧ o = .firing f := by
  obtain ⟨source, outcome, watcher, completed⟩ := u
  cases source with
  | wait v ticket link =>
    obtain ⟨l', rfl, he⟩ := Option.map_eq_some_iff.1 h
    cases he
    exact .inl ⟨v, ticket, rfl, rfl⟩
  | firing n link =>
    cases completed with
    | true => cases h
    | false =>
      obtain ⟨l', rfl, he⟩ := Option.map_eq_some_iff.1 h
      cases he
      exact .inr ⟨n, rfl, rfl, rfl⟩

namespace World

section Keepers

variable {R : Type → Type} (w : World R)

/-- The link that something keeps, and the owner of the callback it leads to. -/
def kept? : Keeper → Option (Link × Owner)
  | .connection c => (w.connections.get? c).map fun k => (k.link, .connection c)
  | .token n => (w.tokens.get? n).bind fun t => t.parent.map fun l => (l, .child n)
  | .future f => (w.futures.get? f).bind fun u => u.kept? f

/-- Who keeps the link to the callback of an owner, and in which field. -/
def KeptBy (x : Keeper) (l : Link) : Owner → Prop
  | .connection c => x = .connection c ∧ ∃ k, w.connections.get? c = some k ∧ k.link = l
  | .child n => x = .token n ∧ ∃ t, w.tokens.get? n = some t ∧ t.parent = some l
  | .wait v ticket => ∃ f u, x = .future f ∧ w.futures.get? f = some u ∧ u.source = .wait v ticket (some l)
  | .firing f => x = .future f ∧ ∃ u n, w.futures.get? f = some u ∧ u.source = .firing n (some l) ∧ u.completed = false

/-- No registration is made for this owner from now on. -/
def Used : Owner → Prop
  | .connection c => c < w.next
  | .child n => n < w.next
  | .wait v ticket => v < w.next ∧ ∀ cv, w.condvars.get? v = some cv → ticket < cv.nextTicket
  | .firing f => f < w.next ∧ ∀ u n, w.futures.get? f = some u → u.source = .firing n none → u.completed = true

variable {w} {w' : World R}

theorem used_congr (hn : w'.next = w.next) (hc : w'.condvars = w.condvars) (hf : w'.futures = w.futures)
    (o : Owner) : w'.Used o ↔ w.Used o := by
  cases o <;> rw [Used, Used] <;> simp only [hn, hc, hf]

theorem kept?_insertToken (n : Nat) (t : Token R) (x : Keeper) :
    { w with tokens := w.tokens.insert n t }.kept? x =
      if .token n = x then t.parent.map fun l => (l, .child n) else w.kept? x := by
  cases x with
  | token m =>
    refine (Table.bind_insert w.tokens (fun n t => t.parent.map fun l => (l, Owner.child n)) n t m).trans ?_
    simp only [Keeper.token.injEq, kept?]
  | connection c => exact (if_neg (by simp)).symm
  | future f => exact (if_neg (by simp)).symm

theorem kept?_insertToken_same {n : Nat} {t t' : Token R} (hn : w.tokens.get? n = some t) (hp : t'.parent = t.parent)
    (x : Keeper) : { w with tokens := w.tokens.insert n t' }.kept? x = w.kept? x := by
  rw [kept?_insertToken]
  split
  · rename_i hx
    rw [← hx, kept?, hn, Option.bind_some, hp]
  · rfl

theorem kept?_register [Registry R] {n : Nat} {t : Token R} (hn : w.tokens.get? n = some t) (cb : Callback) (x : Keeper) :
    (w.register n t cb).1.kept? x = w.kept? x := by
  refine kept?_insertToken_same hn ?_ x
  rfl

theorem kept?_modifyToken {n : Nat} {f : Token R → Token R} (hf : ∀ t, (f t).parent = t.parent) (x : Keeper) :
    { w with tokens := w.tokens.modify n f }.kept? x = w.kept? x := by
  cases x with
  | token m =>
    refine Table.bind_modify (g := fun n (t : Token R) => t.parent.map fun l => (l, Owner.child n)) (fun t => ?_) m
    rw [hf]
  | connection c => rfl
  | future f => rfl

theorem kept?_eraseToken (n : Nat) (x : Keeper) :
    { w with tokens := w.tokens.erase n }.kept? x = if .token n = x then none else w.kept? x := by
  cases x with
  | token m =>
    refine (Table.bind_erase w.tokens (fun n t => t.parent.map fun l => (l, Owner.child n)) n m).trans ?_
    simp only [Keeper.token.injEq, kept?]
  | connection c => exact (if_neg (by simp)).symm
  | future f => exact (if_neg (by simp)).symm

theorem kept?_token {n : Nat} {t : Token R} {l : Link} (hn : w.tokens.get? n = some t) (hp : t.parent = some l) :
    w.kept? (.token n) = some (l, .child n) := by
  rw [kept?, hn, Option.bind_some, hp]
  rfl

theorem kept?_connection (c : Nat) :
    w.kept? (.connection c) = (w.connections.get? c).bind fun k => some (k.link, .connection c) :=
  Option.map_eq_bind

theorem kept?_insertConnection (c : Nat) (k : Connection) (x : Keeper) :
    { w with connections := w.connections.insert c k }.kept? x =
      if .connection c = x then some (k.link, .connection c) else w.kept? x := by
  cases x with
  | connection d =>
    rw [kept?_connection, kept?_connection]
    refine (Table.bind_insert w.connections (fun c k => some (k.link, Owner.connection c)) c k d).trans ?_
    simp only [Keeper.connection.injEq]
  | token n => exact (if_neg (by simp)).symm
  | future f => exact (if_neg (by simp)).symm

theorem kept?_modifyConnection {c : Nat} {f : Connection → Connection} (hf : ∀ k, (f k).link = k.link) (x : Keeper) :
    { w with connections := w.connections.modify c f }.kept? x = w.kept? x := by
  cases x with
  | connection d =>
    rw [kept?_connection, kept?_connection]
    refine Table.bind_modify (g := fun c (k : Connection) => some (k.link, Owner.connection c)) (fun k => ?_) d
    rw [hf]
  | token n => rfl
  | future f => rfl

theorem kept?_eraseConnection (c : Nat) (x : Keeper) :
    { w with connections := w.connections.erase c }.kept? x = if .connection c = x then none else w.kept? x := by
  cases x with
  | connection d =>
    rw [kept?_connection, kept?_connection]
    refine (Table.bind_erase w.connections (fun c k => some (k.link, Owner.connection c)) c d).trans ?_
    simp only [Keeper.connection.injEq]
  | token n => exact (if_neg (by simp)).symm
  | future f => exact (if_neg (by simp)).symm

theorem kept?_insertFuture (f : Nat) (u : Future) (x : Keeper) :
    { w with futures := w.futures.insert f u }.kept? x = if .future f = x then u.kept? f else w.kept? x := by
  cases x with
  | future g =>
    refine (Table.bind_insert w.futures (fun f u => u.kept? f) f u g).trans ?_
    simp only [Keeper.future.injEq, kept?]
  | token n => exact (if_neg (by simp)).symm
  | connection c => exact (if_neg (by simp)).symm

theorem kept?_eraseFuture (f : Nat) (x : Keeper) :
    { w with futures := w.futures.erase f }.kept? x = if .future f = x then none else w.kept? x := by
  cases x with
  | future g =>
    refine (Table.bind_erase w.futures (fun f u => u.kept? f) f g).trans ?_
    simp only [Keeper.future.injEq, kept?]
  | token n => exact (if_neg (by simp)).symm
  | connection c => exact (if_neg (by simp)).symm

/-- The owner of the callback that a link leads to tells who keeps the link. -/
theorem keptBy_of_kept? {x : Keeper} {l : Link} {o : Owner} (h : w.kept? x = some (l, o)) : w.KeptBy x l o := by
  cases x with
  | connection c =>
    obtain ⟨k, hk, he⟩ := Option.map_eq_some_iff.1 h
    cases he
    exact ⟨rfl, k, hk, rfl⟩
  | token n =>
    obtain ⟨t, hn, ht⟩ := Option.bind_eq_some_iff.1 h
    obtain ⟨l', hp, he⟩ := Option.map_eq_some_iff.1 ht
    cases he
    exact ⟨rfl, t, hn, hp⟩
  | future f =>
    obtain ⟨u, hf, hu⟩ := Option.bind_eq_some_iff.1 h
    rcases Future.of_kept? hu with ⟨v, ticket, hs, rfl⟩ | ⟨n, hs, hc, rfl⟩
    · exact ⟨f, u, rfl, hf, hs⟩
    · exact ⟨rfl, u, n, hf, hs, hc⟩

/-- A firing has nothing more to do for this owner. -/
def Settled (w : World R) : Owner → Prop
  | .connection _ => True
  | .child n => ∀ t, w.tokens.get? n = some t → t.isFired = true
  | .wait v ticket => ∀ f u l, w.futures.get? f = some u → u.source = .wait v ticket l → u.outcome.isSome = true
  | .firing f => ∀ u, w.futures.get? f = some u → u.outcome.isSome = true

end Keepers

variable (w : World Arrivals)

/-- What is connected to a token, with its keys. -/
def entries (n : Nat) : List (Nat × Callback) := ((w.tokens.get? n).map (·.registry.list)).getD []

variable {w}

theorem entries_of_get? {n : Nat} {t : Token Arrivals} (h : w.tokens.get? n = some t) :
    w.entries n = t.registry.list := by
  rw [entries, h]
  rfl

theorem get?_of_mem_entries {n : Nat} {e : Nat × Callback} (h : e ∈ w.entries n) :
    ∃ t, w.tokens.get? n = some t ∧ e ∈ t.registry.list := by
  unfold entries at h
  cases ht : w.tokens.get? n with
  | none =>
    rw [ht] at h
    cases h
  | some t =>
    rw [ht] at h
    exact ⟨t, rfl, h⟩

variable (w)

/-- Owners, their links and the callbacks that are connected belong to one another, and all of
them are of objects that were made. It does not say that a link still leads to a callback:
firings take callbacks and leave the links. -/
structure Linked : Prop where
  token_lt : ∀ n t, w.tokens.get? n = some t → n < w.next
  used : ∀ x l o, w.kept? x = some (l, o) → w.Used o
  link_lt : ∀ x l o, w.kept? x = some (l, o) → l.token < w.next
  key_lt : ∀ x l o t, w.kept? x = some (l, o) → w.tokens.get? l.token = some t → l.key.place < t.registry.count
  /-- An owner has one link. -/
  keeper : ∀ x y l l' o, w.kept? x = some (l, o) → w.kept? y = some (l', o) → x = y
  /-- A link has one owner. -/
  sole : ∀ x y l l' o o', w.kept? x = some (l, o) → w.kept? y = some (l', o') → l.token = l'.token →
    l.key.place = l'.key.place → o = o'
  /-- Whatever is connected has a keeper of the link to it. -/
  kept : ∀ n e, e ∈ w.entries n → ∃ x l, w.kept? x = some (l, e.2.owner) ∧ l.token = n ∧ l.key.place = e.1
  nodup : ∀ n, ((w.entries n).map fun e => e.2.owner).Nodup

theorem linked_empty : ({} : World Arrivals).Linked := by
  have hkept : ∀ x, ({} : World Arrivals).kept? x = none := fun x => by cases x <;> rfl
  refine ⟨fun _ _ h => (nomatch h), ?_, ?_, ?_, ?_, ?_, fun _ _ h => (nomatch h), fun _ => .nil⟩ <;> simp [hkept]

end World

/-! ## Four kinds of moves -/

namespace World

/-- Tokens go on as they are, and new ones have new numbers. -/
structure Continues (w w' : World Arrivals) : Prop where
  next_le : w.next ≤ w'.next
  used : ∀ o, w.Used o → w'.Used o
  token : ∀ n t', w'.tokens.get? n = some t' → n < w'.next ∧ (w.next ≤ n ∨ ∃ t, w.tokens.get? n = some t ∧
    t.registry.count ≤ t'.registry.count ∧ t'.count = t.count ∧ t'.parent = t.parent)

/-- Whom a callback was for whose link the keeper `x` had. -/
def loser? (w : World Arrivals) (x : Option Keeper) : Option Owner := (x.bind w.kept?).map (·.2)

@[simp] theorem loser?_none (w : World Arrivals) : w.loser? none = none := rfl

/-- The keeper `x`, if there is one, gives up its link, at which its callback is disconnected. -/
structure Loses (x : Option Keeper) (w w' : World Arrivals) : Prop extends Continues w w' where
  kept : ∀ y, w'.kept? y = if x = some y then none else w.kept? y
  entries : ∀ n t', w'.tokens.get? n = some t' →
    w'.entries n = (w.entries n).filter fun e => w.loser? x ≠ some e.2.owner

/-- The keeper `x` gets the link `l` to a new registration. -/
structure Gains (x : Keeper) (l : Link) (cb : Callback) (w w' : World Arrivals) : Prop extends Continues w w' where
  kept : ∀ y, w'.kept? y = if x = y then some (l, cb.owner) else w.kept? y
  unkept : w.kept? x = none
  entries : ∀ n t', w'.tokens.get? n = some t' →
    w'.entries n = w.entries n ++ if l.token = n then [(l.key.place, cb)] else []
  fresh : ¬ w.Used cb.owner
  owner : w'.Used cb.owner
  token_some : ∃ t t', w.tokens.get? l.token = some t ∧ w'.tokens.get? l.token = some t' ∧
    l.key.place = t.registry.count ∧ l.key.place < t'.registry.count

variable {w w' : World Arrivals}

theorem Linked.notMem (h : w.Linked) {o : Owner} (ho : ¬ w.Used o) {n : Nat} {e : Nat × Callback}
    (he : e ∈ w.entries n) : e.2.owner ≠ o := by
  obtain ⟨x, l, hk, -⟩ := h.kept n e he
  rintro rfl
  exact ho (h.used x l _ hk)

theorem Linked.loses (h : w.Linked) {x : Option Keeper} (hl : Loses x w w') : w'.Linked := by
  have hold : ∀ y l o, w'.kept? y = some (l, o) → w.kept? y = some (l, o) := by
    intro y l o hy
    rw [hl.kept] at hy
    split at hy
    · cases hy
    · exact hy
  refine ⟨fun n t ht => (hl.token n t ht).1, fun y l o hy => hl.used o (h.used y l o (hold y l o hy)),
    fun y l o hy => Nat.lt_of_lt_of_le (h.link_lt y l o (hold y l o hy)) hl.next_le, ?_,
    fun y z l l' o hy hz => h.keeper y z l l' o (hold y l o hy) (hold z l' o hz),
    fun y z l l' o o' hy hz => h.sole y z l l' o o' (hold y l o hy) (hold z l' o' hz), ?_, ?_⟩
  · intro y l o t' hy ht'
    rcases (hl.token l.token t' ht').2 with hn | ⟨t, ht, hle, -⟩
    · exact absurd (h.link_lt y l o (hold y l o hy)) (Nat.not_lt.2 hn)
    · exact Nat.lt_of_lt_of_le (h.key_lt y l o t (hold y l o hy) ht) hle
  · intro n e he
    obtain ⟨t', ht', -⟩ := get?_of_mem_entries he
    rw [hl.entries n t' ht'] at he
    obtain ⟨he, hne⟩ := List.mem_filter.1 he
    obtain ⟨y, l, hy, hln⟩ := h.kept n e he
    refine ⟨y, l, ?_, hln⟩
    rw [hl.kept, if_neg, hy]
    rintro rfl
    rw [loser?, Option.bind_some, hy] at hne
    exact of_decide_eq_true hne rfl
  · intro n
    cases ht' : w'.tokens.get? n with
    | none =>
      rw [World.entries, ht']
      exact .nil
    | some t' =>
      rw [hl.entries n t' ht']
      exact (h.nodup n).sublist (List.filter_sublist.map _)

theorem Linked.gains (h : w.Linked) {x : Keeper} {l : Link} {cb : Callback} (hg : Gains x l cb w w') :
    w'.Linked := by
  have hold : ∀ y l' o, w'.kept? y = some (l', o) → (y = x ∧ l' = l ∧ o = cb.owner) ∨ (y ≠ x ∧ w.kept? y = some (l', o)) := by
    intro y l' o hy
    rw [hg.kept] at hy
    split at hy
    · rename_i hxy
      cases hy
      exact .inl ⟨hxy.symm, rfl, rfl⟩
    · rename_i hxy
      exact .inr ⟨Ne.symm hxy, hy⟩
  obtain ⟨t₀, t₁, ht₀, ht₁, hplace, hlt⟩ := hg.token_some
  -- Keys are given in order, so a new link is none of those there were to its token.
  have hkey : ∀ y l' o, w.kept? y = some (l', o) → l'.token = l.token → l'.key.place < l.key.place :=
    fun y l' o hy hl => hplace ▸ h.key_lt y l' o t₀ hy (hl ▸ ht₀)
  constructor
  case token_lt => exact fun n t ht => (hg.token n t ht).1
  case used =>
    intro y l' o hy
    rcases hold y l' o hy with ⟨-, -, rfl⟩ | ⟨-, hy⟩
    · exact hg.owner
    · exact hg.used o (h.used y l' o hy)
  case link_lt =>
    intro y l' o hy
    rcases hold y l' o hy with ⟨-, rfl, -⟩ | ⟨-, hy⟩
    · exact (hg.token _ t₁ ht₁).1
    · exact Nat.lt_of_lt_of_le (h.link_lt y l' o hy) hg.next_le
  case key_lt =>
    intro y l' o t' hy ht'
    rcases hold y l' o hy with ⟨-, rfl, -⟩ | ⟨-, hy⟩
    · obtain rfl : t₁ = t' := Option.some.inj (ht₁.symm.trans ht')
      exact hlt
    · rcases (hg.token l'.token t' ht').2 with hn | ⟨t, ht, hle, -⟩
      · exact absurd (h.link_lt y l' o hy) (Nat.not_lt.2 hn)
      · exact Nat.lt_of_lt_of_le (h.key_lt y l' o t hy ht) hle
  case keeper =>
    intro y z l' l'' o hy hz
    rcases hold y l' o hy with ⟨hyx, -, ho⟩ | ⟨-, hy⟩ <;> rcases hold z l'' o hz with ⟨hzx, -, ho'⟩ | ⟨-, hz⟩
    · exact hyx.trans hzx.symm
    · exact absurd (ho ▸ h.used z l'' o hz) hg.fresh
    · exact absurd (ho' ▸ h.used y l' o hy) hg.fresh
    · exact h.keeper y z l' l'' o hy hz
  case sole =>
    intro y z l' l'' o o' hy hz ht hk
    rcases hold y l' o hy with ⟨-, hl, ho⟩ | ⟨-, hy⟩ <;> rcases hold z l'' o' hz with ⟨-, hl', ho'⟩ | ⟨-, hz⟩
    · exact ho.trans ho'.symm
    · subst hl
      exact absurd hk (Nat.ne_of_gt (hkey z l'' o' hz ht.symm))
    · subst hl'
      exact absurd hk (Nat.ne_of_lt (hkey y l' o hy ht))
    · exact h.sole y z l' l'' o o' hy hz ht hk
  case kept =>
    intro n e he
    obtain ⟨t', ht', -⟩ := get?_of_mem_entries he
    rw [hg.entries n t' ht'] at he
    rcases List.mem_append.1 he with he | he
    · obtain ⟨y, l', hy, hln⟩ := h.kept n e he
      refine ⟨y, l', ?_, hln⟩
      rw [hg.kept, if_neg, hy]
      rintro rfl
      rw [hg.unkept] at hy
      cases hy
    · split at he
      · rename_i hn
        obtain rfl := List.mem_singleton.1 he
        exact ⟨x, l, by rw [hg.kept, if_pos rfl], hn, rfl⟩
      · cases he
  case nodup =>
    intro n
    cases ht' : w'.tokens.get? n with
    | none =>
      rw [World.entries, ht']
      exact .nil
    | some t' =>
      rw [hg.entries n t' ht', List.map_append]
      split
      · refine List.nodup_append.2 ⟨h.nodup n, List.pairwise_singleton _ _, ?_⟩
        intro o ho o' ho'
        obtain ⟨e, he, rfl⟩ := List.mem_map.1 ho
        rw [List.mem_singleton.1 ho']
        exact h.notMem hg.fresh he
      · rw [List.map_nil, List.append_nil]
        exact h.nodup n

end World

end Gateway.Signal

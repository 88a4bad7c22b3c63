import Replay.Proofs.Buffer.Promises
import Replay.Proofs.Reading

/-!
Buckets only grow. A bucket is filled up to its capacity and then unchanged; a buffer drops no bucket,
not even when it fails or closes, and until it closes it publishes every bucket it has published before.
-/
namespace Replay

variable {α σ : Type}

structure Bucket.Grows (k k' : Bucket α) : Prop where
  index : k'.index = k.index
  capacity : k'.capacity = k.capacity
  items : k.items.toList <+: k'.items.toList
  full : k.isFull → k' = k

namespace Bucket

variable {k k' k'' : Bucket α}

theorem Grows.refl (k : Bucket α) : k.Grows k := ⟨rfl, rfl, List.prefix_rfl, fun _ => rfl⟩

theorem Grows.trans (h : k.Grows k') (h' : k'.Grows k'') : k.Grows k'' where
  index := h'.index.trans h.index
  capacity := h'.capacity.trans h.capacity
  items := h.items.trans h'.items
  full hfull := by
    obtain rfl := h.full hfull
    exact h'.full hfull

theorem grows_push (k : Bucket α) (a : α) : k.Grows (k.push a) := by
  cases hfull : k.isFull with
  | true =>
    rw [push_of_isFull hfull]
    exact .refl k
  | false =>
    refine ⟨k.index_push a, k.capacity_push a, ?_, fun h => absurd (hfull.symm.trans h) Bool.false_ne_true⟩
    rw [items_push hfull, Array.toList_push]
    exact List.prefix_append _ _

theorem Grows.filled_le (h : k.Grows k') : k.filled ≤ k'.filled := h.items.length_le

theorem Grows.get? (h : k.Grows k') {item : Nat} {a : α} (ha : k.get? item = some a) :
    k'.get? item = some a := by
  rw [Bucket.get?, ← Array.getElem?_toList] at ha ⊢
  exact getElem?_mono h.items ha

end Bucket

structure Buffer.Extends (b b' : Buffer α) : Prop where
  layout : b'.layout = b.layout
  bucket : ∀ held k, b.bucket? held = some k → ∃ k', b'.bucket? held = some k' ∧ k.Grows k'
  published : b'.closed = false → b.closed = false ∧ b.published.toList <+: b'.published.toList

namespace Buffer

variable {tap : Tap α σ} {b b' b'' : Buffer α} {s : σ}

theorem Extends.refl (b : Buffer α) : b.Extends b :=
  ⟨rfl, fun _ k hk => ⟨k, hk, .refl k⟩, fun hopen => ⟨hopen, List.prefix_rfl⟩⟩

theorem Extends.trans (h : b.Extends b') (h' : b'.Extends b'') : b.Extends b'' where
  layout := h'.layout.trans h.layout
  bucket held k hk := by
    obtain ⟨k', hk', hgrows⟩ := h.bucket held k hk
    obtain ⟨k'', hk'', hgrows'⟩ := h'.bucket held k' hk'
    exact ⟨k'', hk'', hgrows.trans hgrows'⟩
  published hopen := by
    obtain ⟨hopen', hprefix'⟩ := h'.published hopen
    obtain ⟨hopen'', hprefix⟩ := h.published hopen'
    exact ⟨hopen'', hprefix.trans hprefix'⟩

theorem Extends.of_same (hlayout : b'.layout = b.layout) (hbuckets : b'.buckets = b.buckets)
    (hpublished : b'.published = b.published) (hclosed : b'.closed = b.closed) : b.Extends b' := by
  refine ⟨hlayout, fun held k hk => ⟨k, ?_, .refl k⟩, fun hopen => ⟨hclosed ▸ hopen, ?_⟩⟩
  · rw [bucket?, hbuckets]
    exact hk
  · exact hpublished.symm ▸ List.prefix_rfl

theorem extends_fail (b : Buffer α) (f : Failure) : b.Extends (b.fail f).2 := by
  unfold fail
  split
  · exact .refl b
  · exact .of_same rfl rfl rfl rfl

theorem extends_close (b : Buffer α) : b.Extends b.close :=
  ⟨rfl, fun _ k hk => ⟨k, hk, .refl k⟩, nofun⟩

theorem extends_allocate (b : Buffer α) : b.Extends b.allocate := by
  refine ⟨rfl, fun held k hk => ⟨k, ?_, .refl k⟩, fun hopen => ⟨hopen, ?_⟩⟩
  · rw [bucket?, allocate, Array.getElem?_push_lt (lt_size_of_bucket? hk), ← hk, bucket?]
    exact (Array.getElem?_eq_getElem _).symm
  · rw [allocate, Array.toList_push]
    exact List.prefix_append _ _

theorem extends_store (b : Buffer α) (a : α) : b.Extends (b.store a) := by
  refine ⟨rfl, fun held k hk => ?_, fun hopen => ⟨hopen, List.prefix_rfl⟩⟩
  rw [bucket?] at hk
  unfold bucket? store
  cases b.current with
  | none => exact ⟨k, hk, .refl k⟩
  | some filling =>
    dsimp only
    rw [Array.getElem?_modify]
    split
    · exact ⟨k.push a, by rw [hk, Option.map_some], k.grows_push a⟩
    · exact ⟨k, hk, .refl k⟩

theorem extends_makeRoom (b : Buffer α) : b.Extends (b.makeRoom tap s).2.1 := by
  unfold makeRoom extend
  split
  · exact .refl b
  · split
    · exact extends_fail b _
    · exact extends_allocate b

theorem extends_keep (b : Buffer α) (a : α) : b.Extends (b.keep tap a s).2.1 := by
  unfold keep
  split
  · dsimp only
    split
    · split
      · exact (extends_store b a).trans (extends_fail _ _)
      · exact extends_store b a
    · exact extends_store b a
  · exact .refl b

theorem extends_append (b : Buffer α) (a : α) : b.Extends (b.append tap a s).2.1 := by
  have hroom : b.Extends (b.makeRoom tap s).2.1 := b.extends_makeRoom
  unfold append
  rcases hr : b.makeRoom tap s with ⟨_ | e, b', s'⟩
  · rw [hr] at hroom
    exact hroom.trans (b'.extends_keep a)
  · rw [hr] at hroom
    exact hroom

theorem extends_fill (b : Buffer α) (n : Nat) : b.Extends (b.fill tap n s).2.1 := by
  induction n generalizing b s with
  | zero => exact .refl b
  | succ n ih =>
    unfold fill
    split
    · exact .refl b
    · rcases tap.pull s with ⟨o, s'⟩
      cases o with
      | item a =>
        have happend : b.Extends (b.append tap a s').2.1 := b.extends_append a
        dsimp only
        rcases ha : b.append tap a s' with ⟨_ | e, b', s''⟩
        · rw [ha] at happend
          exact happend.trans (ih b')
        · rw [ha] at happend
          exact happend
      | finished => exact .of_same rfl rfl rfl rfl
      | failed e => exact .refl b
      | panicked p => exact .refl b

theorem extends_hasNext (b : Buffer α) (offset : Nat) : b.Extends (b.hasNext tap offset s).2.1 := by
  unfold hasNext
  split
  · exact .refl b
  · exact b.extends_fill _

theorem extends_bucketFor (b : Buffer α) (offset : Nat) : b.Extends (b.bucketFor tap offset s).2.1 := by
  have hnext : b.Extends (b.hasNext tap offset s).2.1 := b.extends_hasNext offset
  unfold bucketFor
  rcases hr : b.hasNext tap offset s with ⟨_ | _ | _, b', s'⟩
  · rw [hr] at hnext
    exact hnext
  · rw [hr] at hnext
    exact hnext
  · rw [hr] at hnext
    dsimp only
    split
    · exact hnext.trans (extends_fail b' _)
    · split
      · exact hnext
      · exact hnext

theorem bucket?_of_bucketFor {offset held : Nat} {s' : σ}
    (h : b.bucketFor tap offset s = (.ok (some held), b', s')) : ∃ k, b'.bucket? held = some k := by
  unfold bucketFor at h
  rcases hr : b.hasNext tap offset s with ⟨stop | _ | _, b₁, s₁⟩
  · rw [hr] at h
    cases h
  · rw [hr] at h
    cases h
  · rw [hr] at h
    dsimp only at h
    split at h
    · cases h
    · split at h
      · rename_i hshown
        cases h
        obtain ⟨k, hk, -⟩ := contains_of_shown? hshown
        exact ⟨k, hk⟩
      · cases h

theorem Consistent.filled_le {held : Nat} {k : Bucket α} (h : b.Consistent) (hk : b.bucket? held = some k) :
    k.filled ≤ k.capacity := by
  obtain ⟨b₀, got, hsound, hb⟩ := h
  have hk₀ : b₀.bucket? held = some k := by
    rcases hb with rfl | rfl
    · exact hk
    · exact hk
  rw [hsound.holds.bucket held (lt_size_of_bucket? hk₀), Option.some.injEq] at hk₀
  rw [← hk₀, Layout.filled_cut, Layout.capacity_cut]
  exact Nat.min_le_left _ _

end Buffer

namespace Head

variable {tap : Tap α σ} {b : Buffer α} {s : σ}

def Holding (h : Head) (b : Buffer α) : Prop :=
  ∀ held, h.cached = some held → ∃ k, b.bucket? held = some k

theorem Holding.extends {h : Head} {b' : Buffer α} (hh : h.Holding b) (hb : b.Extends b') : h.Holding b' := by
  intro held hheld
  obtain ⟨k, hk⟩ := hh held hheld
  obtain ⟨k', hk', -⟩ := hb.bucket held k hk
  exact ⟨k', hk'⟩

theorem extends_next (h : Head) : b.Extends (h.next tap b s).2.2.1 ∧
    (h.Holding b → (h.next tap b s).2.1.Holding (h.next tap b s).2.2.1) := by
  have hbucket : b.Extends (b.bucketFor tap h.position s).2.1 := b.extends_bucketFor h.position
  have hread : b.Extends (h.readAt tap b s).2.2.1 ∧
      (h.Holding b → (h.readAt tap b s).2.1.Holding (h.readAt tap b s).2.2.1) := by
    unfold readAt lookUp
    split
    · exact ⟨.refl b, id⟩
    · rcases hr : b.bucketFor tap h.position s with ⟨_ | _ | held, b', s'⟩
      · rw [hr] at hbucket
        exact ⟨hbucket, fun hh => hh.extends hbucket⟩
      · rw [hr] at hbucket
        exact ⟨hbucket, fun hh => hh.extends hbucket⟩
      · rw [hr] at hbucket
        refine ⟨hbucket, fun _ => ?_⟩
        rintro _ ⟨⟩
        exact Buffer.bucket?_of_bucketFor hr
  unfold next
  split
  · exact ⟨.refl b, id⟩
  · split
    · exact ⟨.refl b, id⟩
    · rcases hr : h.readAt tap b s with ⟨_ | _, h', b', s'⟩
      · rw [hr] at hread
        exact hread
      · rw [hr] at hread
        exact hread

end Head

end Replay

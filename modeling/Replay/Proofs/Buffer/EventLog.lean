import Replay.Proofs.Buffer.Reading

/-!
The events of a buffer: the allocation of each bucket, exhaustion, failure and closing, each logged
exactly as often as it happens and in this order.
-/
namespace Replay

variable {α σ : Type}

namespace Event

def allocation? : Event → Option (Nat × Nat)
  | bucketAllocated index capacity => some (index, capacity)
  | _ => none

def exhaustion? : Event → Option Nat
  | sourceExhausted total => some total
  | _ => none

def failure? : Event → Option Failure
  | growthRefused capacity => some (.growthDisabled capacity)
  | sizeExceeded limit => some (.sizeExceeded limit)
  | _ => none

def closing? : Event → Option (Nat × Ownership)
  | bufferClosed consumed ownership => some (consumed, ownership)
  | _ => none

/-- The stages are live, failed and closed; events of an earlier stage are not logged later. -/
def stage? : Event → Option Nat
  | bucketAllocated .. | sourceExhausted _ => some 0
  | growthRefused _ | sizeExceeded _ => some 1
  | bufferClosed .. => some 2
  | _ => none

def ofBuffer (e : Event) : Bool := e.stage?.isSome

end Event

namespace Buffer

def allocations (b : Buffer α) : List (Nat × Nat) :=
  (List.range b.buckets.size).map fun index => (index, b.layout.capacity index)

def totals (b : Buffer α) : List Nat := if b.exhausted then [b.consumed] else []

def closings (b : Buffer α) : List (Nat × Ownership) :=
  if b.closed then [(b.consumed, b.ownership)] else []

def stage (b : Buffer α) : Nat := if b.closed then 2 else if b.failure.isSome then 1 else 0

/-- The events of the buffer in `es` are those of its history. -/
structure EventsMatch (b : Buffer α) (es : List Event) : Prop where
  allocated : es.filterMap Event.allocation? = b.allocations
  exhausted : es.filterMap Event.exhaustion? = b.totals
  failed : es.filterMap Event.failure? = b.failure.toList
  closed : es.filterMap Event.closing? = b.closings
  ordered : (es.filterMap Event.stage?).Pairwise (· ≤ ·)

/-- Besides, `es` has no other events. -/
structure EventsExact (b : Buffer α) (es : List Event) : Prop extends b.EventsMatch es where
  own : ∀ e ∈ es, e.ofBuffer

variable {b b' : Buffer α} {es fs : List Event} {e : Event} {got : List α}

theorem stage_le (hf : b.failure = none) (hopen : b.closed = false) (n : Nat) : b.stage ≤ n := by
  rw [stage, hf, hopen]
  exact Nat.zero_le n

theorem EventsMatch.stage_le (h : b.EventsMatch es) {n : Nat} (hn : n ∈ es.filterMap Event.stage?) :
    n ≤ b.stage := by
  obtain ⟨e, he, hstage⟩ := List.mem_filterMap.mp hn
  have hfailed : ∀ f, e.failure? = some f → 1 ≤ b.stage := by
    intro f hf
    have hmem : f ∈ b.failure.toList := h.failed ▸ List.mem_filterMap.mpr ⟨e, he, hf⟩
    rw [Option.mem_toList] at hmem
    rw [stage, hmem]
    split
    · exact Nat.le_succ 1
    · exact le_rfl
  have hclosed : ∀ x, e.closing? = some x → 2 ≤ b.stage := by
    intro x hx
    have hmem : x ∈ b.closings := h.closed ▸ List.mem_filterMap.mpr ⟨e, he, hx⟩
    unfold closings at hmem
    split at hmem
    · rename_i hc
      rw [stage, if_pos hc]
    · cases hmem
  cases e with
  | bucketAllocated index capacity =>
    cases hstage
    exact Nat.zero_le _
  | sourceExhausted total =>
    cases hstage
    exact Nat.zero_le _
  | growthRefused capacity =>
    cases hstage
    exact hfailed _ rfl
  | sizeExceeded limit =>
    cases hstage
    exact hfailed _ rfl
  | bufferClosed consumed ownership =>
    cases hstage
    exact hclosed _ rfl
  | _ => cases hstage

theorem EventsExact.eventsMatch (h : b.EventsExact fs) (hes : es.filter Event.ofBuffer = fs) :
    b.EventsMatch es := by
  have hsame : ∀ {β : Type} {f : Event → Option β}, (∀ e, e.stage? = none → f e = none) →
      es.filterMap f = fs.filterMap f := by
    intro β f hf
    rw [← hes, List.filterMap_filter]
    refine List.filterMap_congr fun e _ => ?_
    cases hstage : e.stage? with
    | none => simp [Event.ofBuffer, hstage, hf e hstage]
    | some n => simp [Event.ofBuffer, hstage]
  refine ⟨?_, ?_, ?_, ?_, ?_⟩
  · refine (hsame fun e he => ?_).trans h.allocated
    cases e with
    | bucketAllocated => cases he
    | _ => rfl
  · refine (hsame fun e he => ?_).trans h.exhausted
    cases e with
    | sourceExhausted => cases he
    | _ => rfl
  · refine (hsame fun e he => ?_).trans h.failed
    cases e with
    | growthRefused => cases he
    | sizeExceeded => cases he
    | _ => rfl
  · refine (hsame fun e he => ?_).trans h.closed
    cases e with
    | bufferClosed => cases he
    | _ => rfl
  · rw [hsame fun e he => he]
    exact h.ordered

namespace EventsExact

theorem same (h : b.EventsExact es) (hbuckets : b'.buckets.size = b.buckets.size)
    (hterms : b'.terms = b.terms)
    (htotals : b'.totals = b.totals) (hfailure : b'.failure = b.failure)
    (hclosings : b'.closings = b.closings) : b'.EventsExact es where
  allocated := by
    have hlayout : b'.layout = b.layout := congrArg Prod.fst hterms
    rw [h.allocated, allocations, allocations, hbuckets, hlayout]
  exhausted := h.exhausted.trans htotals.symm
  failed := by rw [h.failed, hfailure]
  closed := h.closed.trans hclosings.symm
  ordered := h.ordered
  own := h.own

theorem snoc (h : b.EventsExact es) {n : Nat} (he : e.stage? = some n) (hstage : b.stage ≤ n)
    (hallocations : b'.allocations = b.allocations ++ e.allocation?.toList)
    (htotals : b'.totals = b.totals ++ e.exhaustion?.toList)
    (hfailure : b'.failure.toList = b.failure.toList ++ e.failure?.toList)
    (hclosings : b'.closings = b.closings ++ e.closing?.toList) : b'.EventsExact (es ++ [e]) := by
  have hsnoc : ∀ {β : Type} (f : Event → Option β), (es ++ [e]).filterMap f =
      es.filterMap f ++ (f e).toList := by
    intro β f
    rw [List.filterMap_append]
    cases he : f e with
    | none => simp [he]
    | some x => simp [he]
  refine ⟨⟨?_, ?_, ?_, ?_, ?_⟩, fun e' he' => ?_⟩
  · rw [hsnoc, h.allocated, hallocations]
  · rw [hsnoc, h.exhausted, htotals]
  · rw [hsnoc, h.failed, hfailure]
  · rw [hsnoc, h.closed, hclosings]
  · rw [hsnoc, he, List.pairwise_append]
    refine ⟨h.ordered, List.pairwise_singleton _ n, fun earlier hearlier l hl => ?_⟩
    obtain rfl := List.mem_singleton.mp hl
    exact (h.stage_le hearlier).trans hstage
  · rcases List.mem_append.mp he' with he' | he'
    · exact h.own e' he'
    · rw [List.mem_singleton.mp he', Event.ofBuffer, he]
      rfl

theorem close (h : b.EventsExact es) (hopen : b.closed = false) :
    b.close.EventsExact (es ++ [.bufferClosed b.consumed b.ownership]) := by
  have hstage : b.stage ≤ 2 := by
    rw [stage, hopen]
    cases b.failure with
    | none => exact Nat.zero_le 2
    | some f => exact Nat.le_succ 1
  refine h.snoc rfl hstage (List.append_nil _).symm (List.append_nil _).symm (List.append_nil _).symm ?_
  rw [closings, closings, hopen]
  rfl

section going

variable (h : b.EventsExact es) (hf : b.failure = none) (hopen : b.closed = false)

include h hf hopen

theorem fail {f : Failure} (he : e.failure? = some f) :
    EventsExact { b with failure := some f } (es ++ [e]) := by
  have hfailed : (some f).toList = b.failure.toList ++ e.failure?.toList := by
    rw [hf, he]
    rfl
  cases e with
  | growthRefused capacity =>
    exact h.snoc rfl (stage_le hf hopen 1) (List.append_nil _).symm (List.append_nil _).symm hfailed
      (List.append_nil _).symm
  | sizeExceeded limit =>
    exact h.snoc rfl (stage_le hf hopen 1) (List.append_nil _).symm (List.append_nil _).symm hfailed
      (List.append_nil _).symm
  | _ => cases he

theorem exhaust (hexhausted : b.exhausted = false) :
    EventsExact { b with exhausted := true } (es ++ [.sourceExhausted b.consumed]) := by
  refine h.snoc rfl (stage_le hf hopen 0) (List.append_nil _).symm ?_ (List.append_nil _).symm
    (List.append_nil _).symm
  rw [totals, totals, hexhausted]
  rfl

theorem allocate (hnext : b.nextIndex = b.buckets.size) :
    b.allocate.EventsExact (es ++ [.bucketAllocated b.nextIndex (b.layout.capacity b.nextIndex)]) := by
  refine h.snoc rfl (stage_le hf hopen 0) ?_ (List.append_nil _).symm (List.append_nil _).symm
    (List.append_nil _).symm
  have hsize : b.allocate.buckets.size = b.buckets.size + 1 := Array.size_push _
  rw [allocations, hsize, List.range_succ, List.map_append, hnext]
  rfl

end going

theorem store (h : b.EventsExact es) (hopen : b.closed = false) (hexhausted : b.exhausted = false) (a : α) :
    (b.store a).EventsExact es := by
  refine h.same ?_ rfl ?_ rfl ?_
  · unfold Buffer.store
    cases b.current with
    | none => rfl
    | some held => exact Array.size_modify
  · have hstored : (b.store a).exhausted = false := hexhausted
    rw [totals, totals, hstored, hexhausted]
    rfl
  · have hstored : (b.store a).closed = false := hopen
    rw [closings, closings, hstored, hopen]
    rfl

end EventsExact

theorem Roomy.eventsExact_keep (hroomy : b.Roomy got) (hexhausted : b.exhausted = false)
    (h : b.EventsExact es) (a : α) :
    (b.keep .record a []).2.1.EventsExact (es ++ (b.keep .record a []).2.2) := by
  have hstored := h.store hroomy.opened hexhausted a
  rcases keep_record hroomy.room hroomy.unfailed a with ⟨hkeep, -⟩ | ⟨limit, -, -, hkeep⟩
  · rw [hkeep, List.append_nil]
    exact hstored
  · rw [hkeep]
    exact hstored.fail hroomy.unfailed hroomy.opened rfl

theorem Sound.eventsExact_absorb (hsound : b.Sound got) (hlive : b.Live) (h : b.EventsExact es) (o : Pull α) :
    (b.absorb o).2.1.EventsExact (es ++ (b.absorb o).2.2) := by
  obtain ⟨hf, hexhausted⟩ := hlive
  cases o with
  | item a =>
    have habsorb : b.absorb (.item a) = b.append .record a [] := rfl
    rw [habsorb]
    rcases append_record hf a with ⟨hroom, happend⟩ | ⟨hroom, hgrow, happend⟩ | ⟨-, -, -, happend⟩
    · rw [happend]
      exact (hsound.roomy hf hroom).eventsExact_keep hexhausted h a
    · have hnext := hsound.listed.nextIndex_eq (hsound.holds_all hf).toLays
      have hkept := (hsound.roomy_allocate hf hroom hgrow).eventsExact_keep hexhausted
        (h.allocate hf hsound.opened hnext) a
      rw [happend]
      rwa [List.append_assoc] at hkept
    · rw [happend]
      exact h.fail hf hsound.opened rfl
  | finished => exact h.exhaust hf hsound.opened hexhausted
  | failed e => exact (List.append_nil es).symm ▸ h
  | panicked p => exact (List.append_nil es).symm ▸ h

theorem eventsExact_after {outcomes : Nat → Pull α} {count : Nat} (hsound : b.Sound [])
    (hnew : b.EventsExact [])
    (hp : b.Pulls outcomes count) : (b.after outcomes count).EventsExact (b.events outcomes count) := by
  induction count with
  | zero => exact hnew
  | succ count ih =>
    have hp' := hp.mono (Nat.le_succ count)
    exact (sound_after hsound hp').2.eventsExact_absorb (hp count (Nat.lt_succ_self count)) (ih hp')
      (outcomes count)

end Buffer
end Replay

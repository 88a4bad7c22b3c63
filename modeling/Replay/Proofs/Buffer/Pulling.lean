import Replay.Proofs.Buffer.Buckets

/-!
The state of a buffer as a function of the pulls. `after outcomes count` is the buffer that the first
`count` outcomes lead to, whichever reader asked for them; its invariants are proved by induction on
`count`.
-/
namespace Replay

variable {α σ : Type}

namespace Tap

def record : Tap α (List Event) := ⟨fun es => (.finished, es), fun e es => es ++ [e]⟩

def noteAll (tap : Tap α σ) (es : List Event) (s : σ) : σ := es.foldl (fun s e => tap.note e s) s

@[simp] theorem noteAll_nil (tap : Tap α σ) (s : σ) : tap.noteAll [] s = s := rfl

@[simp] theorem noteAll_append (tap : Tap α σ) (es fs : List Event) (s : σ) :
    tap.noteAll (es ++ fs) s = tap.noteAll fs (tap.noteAll es s) := by
  simp [noteAll]

theorem noteAll_record (es fs : List Event) : (record (α := α)).noteAll es fs = fs ++ es := by
  induction es generalizing fs with
  | nil => simp
  | cons e es ih => simpa [noteAll, record] using ih (fs ++ [e])

end Tap

namespace Buffer

theorem makeRoom_eq (tap : Tap α σ) (b : Buffer α) (s : σ) :
    b.makeRoom tap s =
      ((b.makeRoom .record []).1, (b.makeRoom .record []).2.1,
        tap.noteAll (b.makeRoom .record []).2.2 s) := by
  unfold makeRoom extend
  split
  · rfl
  · split <;> rfl

theorem keep_eq (tap : Tap α σ) (b : Buffer α) (a : α) (s : σ) :
    b.keep tap a s =
      ((b.keep .record a []).1, (b.keep .record a []).2.1,
        tap.noteAll (b.keep .record a []).2.2 s) := by
  unfold keep
  dsimp only
  split
  · split
    · split <;> rfl
    · rfl
  · rfl

theorem append_eq (tap : Tap α σ) (b : Buffer α) (a : α) (s : σ) :
    b.append tap a s =
      ((b.append .record a []).1, (b.append .record a []).2.1,
        tap.noteAll (b.append .record a []).2.2 s) := by
  unfold append
  rw [makeRoom_eq]
  obtain ⟨e, b, es⟩ := b.makeRoom .record []
  cases e with
  | some e => rfl
  | none =>
    dsimp only
    rw [keep_eq, keep_eq .record b a es]
    simp [Tap.noteAll_record]

def terms (b : Buffer α) : Layout × Limit × Ownership × Option Nat :=
  (b.layout, b.limit, b.ownership, b.hint)

/-- The failure state against the number of items given to the buffer. -/
def Standing (b : Buffer α) (given : Nat) : Prop :=
  match b.failure with
  | none => given = b.consumed ∧ ∀ limit, b.limit.count? = some limit → b.consumed ≤ limit
  | some (.sizeExceeded limit) =>
    given = b.consumed ∧ b.consumed = limit + 1 ∧ b.limit.count? = some limit ∧
      b.layout.increment ≠ 0
  | some (.growthDisabled capacity) =>
    given = b.consumed + 1 ∧ b.consumed = capacity ∧ capacity = b.layout.initial ∧
      b.layout.increment = 0

/-- Invariant of an open buffer that was given the items `got`: it has kept all of them, or all but the
one that overflowed. -/
structure Sound (b : Buffer α) (got : List α) : Prop where
  initial : 0 < b.layout.initial
  limit : ∀ limit, b.limit.count? = some limit → b.layout.initial ≤ limit
  opened : b.closed = false
  listed : b.Listed
  holds : b.Holds (got.take b.consumed)
  standing : b.Standing got.length

variable {b : Buffer α} {got : List α}

theorem Sound.length_eq (h : b.Sound got) (hf : b.failure = none) : got.length = b.consumed := by
  have hstanding := h.standing
  simp only [Standing, hf] at hstanding
  exact hstanding.1

theorem Sound.holds_all (h : b.Sound got) (hf : b.failure = none) : b.Holds got := by
  have hholds := h.holds
  rwa [← h.length_eq hf, List.take_length] at hholds

theorem refused_of_full (hlisted : b.Listed) (hholds : b.Holds got) (hroom : b.hasRoom = false)
    (hnext : 0 < b.nextIndex) (hgrows : b.layout.grows = false) :
    b.layout.increment = 0 ∧ got.length = b.layout.initial := by
  have hflat : b.layout.increment = 0 := by simpa [Layout.grows] using hgrows
  rw [hlisted.nextIndex_eq hholds.toLays] at hnext
  have hone : b.buckets.size = 1 := by
    have := hholds.size_le_one hflat
    omega
  rw [← Bool.not_eq_true, hlisted.hasRoom_iff hholds.toLays, hone, Layout.start_one] at hroom
  have habove := hholds.above
  rw [hone, Layout.start_one] at habove
  exact ⟨hflat, by omega⟩

/-- An open buffer that has kept `got` and has a free slot. -/
structure Roomy (b : Buffer α) (got : List α) : Prop where
  initial : 0 < b.layout.initial
  limit : ∀ limit, b.limit.count? = some limit → b.layout.initial ≤ limit
  fits : ∀ limit, b.limit.count? = some limit → got.length ≤ limit
  unfailed : b.failure = none
  opened : b.closed = false
  listed : b.Listed
  lays : b.Lays got
  room : b.hasRoom

theorem Sound.roomy (h : b.Sound got) (hf : b.failure = none) (hroom : b.hasRoom) :
    b.Roomy got where
  initial := h.initial
  limit := h.limit
  fits := by
    have hstanding := h.standing
    simp only [Standing, hf] at hstanding
    rw [hstanding.1]
    exact hstanding.2
  unfailed := hf
  opened := h.opened
  listed := h.listed
  lays := (h.holds_all hf).toLays
  room := hroom

theorem Sound.roomy_allocate (h : b.Sound got) (hf : b.failure = none) (hroom : b.hasRoom = false)
    (hgrow : b.nextIndex = 0 ∨ b.layout.grows) : b.allocate.Roomy got := by
  have hholds := h.holds_all hf
  have hfull : got.length = b.layout.start b.buckets.size := by
    rw [← Bool.not_eq_true, h.listed.hasRoom_iff hholds.toLays] at hroom
    exact Nat.le_antisymm hholds.above (Nat.le_of_not_lt hroom)
  obtain ⟨hlisted, hlays⟩ := h.listed.allocate hholds.toLays hfull
  refine ⟨h.initial, h.limit, ?_, hf, h.opened, hlisted, hlays, ?_⟩
  · have hstanding := h.standing
    simp only [Standing, hf] at hstanding
    rw [hstanding.1]
    exact hstanding.2
  · rw [hlisted.hasRoom_iff hlays, hfull]
    have hsize : b.allocate.buckets.size = b.buckets.size + 1 := by simp [Buffer.allocate]
    rw [h.listed.nextIndex_eq hholds.toLays] at hgrow
    have hcapacity := Layout.capacity_pos h.initial hgrow
    change b.layout.start b.buckets.size < b.layout.start b.allocate.buckets.size
    rw [hsize, Layout.start_succ]
    omega

theorem keep_record (hroom : b.hasRoom) (hf : b.failure = none) (a : α) :
    (b.keep .record a [] = (none, b.store a, []) ∧
      ∀ limit, b.limit.count? = some limit → (b.store a).consumed ≤ limit) ∨
    ∃ limit, b.limit.count? = some limit ∧ limit < (b.store a).consumed ∧
      b.keep .record a [] = (some (.bufferSizeExceeded limit),
        { b.store a with failure := some (.sizeExceeded limit) }, [.sizeExceeded limit]) := by
  have hfailure : (b.store a).failure = none := hf
  have hsame : (b.store a).limit = b.limit := rfl
  cases hlimit : b.limit.count? with
  | none => exact .inl ⟨by simp [Buffer.keep, hroom, hsame, hlimit], by rintro limit ⟨⟩⟩
  | some limit =>
    by_cases hover : limit < (b.store a).consumed
    · refine .inr ⟨limit, rfl, hover, ?_⟩
      simp [Buffer.keep, hroom, hsame, hlimit, hover, Buffer.fail, hfailure, Tap.record, Failure.error]
    · refine .inl ⟨by simp [Buffer.keep, hroom, hsame, hlimit, hover], ?_⟩
      rintro _ ⟨⟩
      exact Nat.le_of_not_lt hover

theorem append_record (hf : b.failure = none) (a : α) :
    (b.hasRoom ∧ b.append .record a [] = b.keep .record a []) ∨
    (b.hasRoom = false ∧ (b.nextIndex = 0 ∨ b.layout.grows) ∧ b.append .record a [] =
      ((b.allocate.keep .record a []).1, (b.allocate.keep .record a []).2.1,
        .bucketAllocated b.nextIndex (b.layout.capacity b.nextIndex) ::
          (b.allocate.keep .record a []).2.2)) ∨
    b.hasRoom = false ∧ 0 < b.nextIndex ∧ b.layout.grows = false ∧ b.append .record a [] =
      (some (.bufferGrowthDisabled b.layout.initial),
        { b with failure := some (.growthDisabled b.layout.initial) },
        [.growthRefused b.layout.initial]) := by
  by_cases hroom : b.hasRoom
  · exact .inl ⟨hroom, by simp [Buffer.append, makeRoom, hroom]⟩
  · rw [Bool.not_eq_true] at hroom
    by_cases hgrow : b.nextIndex = 0 ∨ b.layout.grows
    · refine .inr (.inl ⟨hroom, hgrow, ?_⟩)
      have hallowed : ¬(0 < b.nextIndex ∧ (!b.layout.grows) = true) := by
        rintro ⟨hnext, hflat⟩
        rcases hgrow with hzero | hgrows
        · omega
        · simp [hgrows] at hflat
      unfold Buffer.append makeRoom extend
      rw [if_neg (by simp [hroom]), if_neg hallowed]
      dsimp only
      rw [keep_eq, Tap.noteAll_record]
      rfl
    · rw [not_or, ← ne_eq, Nat.ne_zero_iff_zero_lt, Bool.not_eq_true] at hgrow
      obtain ⟨hnext, hgrows⟩ := hgrow
      refine .inr (.inr ⟨hroom, hnext, hgrows, ?_⟩)
      simp [Buffer.append, makeRoom, extend, hroom, hnext, hgrows, Buffer.fail, hf, Tap.record, Failure.error]

theorem Roomy.keep (h : b.Roomy got) (a : α) :
    let r := b.keep .record a []
    r.1 = r.2.1.failure.map Failure.error ∧ r.2.1.terms = b.terms ∧
      r.2.1.exhausted = b.exhausted ∧ r.2.1.Sound (got ++ [a]) := by
  obtain ⟨hlisted, hholds⟩ := h.listed.store h.lays h.room a
  have hcount : (b.store a).consumed = (got ++ [a]).length := hholds.consumed
  have hfailure : (b.store a).failure = none := h.unfailed
  have hwhole : (b.store a).Holds ((got ++ [a]).take (b.store a).consumed) := by
    rwa [hcount, List.take_length]
  rcases keep_record h.room h.unfailed a with ⟨hkeep, hwithin⟩ | ⟨limit, hlimit, hover, hkeep⟩
  · rw [hkeep]
    refine ⟨by simp [hfailure], rfl, rfl, h.initial, h.limit, h.opened, hlisted, hwhole, ?_⟩
    simp only [Standing, hfailure]
    exact ⟨hcount.symm, hwithin⟩
  · have hfits := h.fits limit hlimit
    have hlength : (b.store a).consumed = got.length + 1 := by simpa using hcount
    rw [hkeep]
    refine ⟨rfl, rfl, rfl, h.initial, h.limit, h.opened, ⟨hlisted.published, hlisted.current⟩,
      ⟨⟨hwhole.consumed, hwhole.bucket, hwhole.reached, hwhole.above⟩, hwhole.below⟩, ?_⟩
    refine ⟨hcount.symm, ?_, hlimit, ?_⟩
    · change (b.store a).consumed = limit + 1
      omega
    · intro hflat
      have hroom := (h.listed.hasRoom_iff h.lays).mp h.room
      have hstart := b.layout.start_le_initial hflat b.buckets.size
      have hinitial := h.limit limit hlimit
      omega

theorem Sound.append (h : b.Sound got) (hf : b.failure = none) (a : α) :
    let r := b.append .record a []
    r.1 = r.2.1.failure.map Failure.error ∧ r.2.1.terms = b.terms ∧
      r.2.1.exhausted = b.exhausted ∧ r.2.1.Sound (got ++ [a]) := by
  rcases append_record hf a with ⟨hroom, happend⟩ | ⟨hroom, hgrow, happend⟩ | ⟨hroom, hnext, hgrows, happend⟩
  · rw [happend]
    exact (h.roomy hf hroom).keep a
  · rw [happend]
    exact (h.roomy_allocate hf hroom hgrow).keep a
  · have hholds := h.holds_all hf
    have hlength := h.length_eq hf
    obtain ⟨hflat, hfull⟩ := refused_of_full h.listed hholds hroom hnext hgrows
    rw [happend]
    refine ⟨rfl, rfl, rfl, h.initial, h.limit, h.opened,
      ⟨h.listed.published, h.listed.current⟩, ?_, ?_⟩
    · have htake : (got ++ [a]).take b.consumed = got := by
        rw [← hlength, List.take_left]
      change Holds _ ((got ++ [a]).take b.consumed)
      rw [htake]
      exact ⟨⟨hholds.consumed, hholds.bucket, hholds.reached, hholds.above⟩, hholds.below⟩
    · refine ⟨?_, ?_, rfl, hflat⟩
      · simp only [List.length_append, List.length_singleton]
        omega
      · change b.consumed = b.layout.initial
        omega

/-- One pull outcome applied to a buffer, with the events it logs. -/
def absorb (b : Buffer α) : Pull α → Option StreamError × Buffer α × List Event
  | .item a => b.append .record a []
  | .finished => (none, { b with exhausted := true }, [.sourceExhausted b.consumed])
  | .failed _ | .panicked _ => (none, b, [])

end Buffer

def Pull.item? : Pull α → Option α
  | .item a => some a
  | _ => none

def delivered (outcomes : Nat → Pull α) (count : Nat) : List α :=
  (List.range count).filterMap fun i => (outcomes i).item?

theorem delivered_succ (outcomes : Nat → Pull α) (count : Nat) :
    delivered outcomes (count + 1) = delivered outcomes count ++ (outcomes count).item?.toList := by
  simp [delivered, List.range_succ, List.filterMap_cons]
  cases (outcomes count).item? <;> rfl

theorem delivered_mono (outcomes : Nat → Pull α) {count more : Nat} (h : count ≤ more) :
    delivered outcomes count <+: delivered outcomes more := by
  induction more, h using Nat.le_induction with
  | base => exact List.prefix_rfl
  | succ more _ ih =>
    rw [delivered_succ]
    exact ih.trans (List.prefix_append _ _)

namespace Buffer

def after (b : Buffer α) (outcomes : Nat → Pull α) : (count : Nat) → Buffer α
  | 0 => b
  | count + 1 => ((b.after outcomes count).absorb (outcomes count)).2.1

/-- `fill_to` would pull: neither failed nor exhausted. -/
def Live (b : Buffer α) : Prop := b.failure = none ∧ b.exhausted = false

/-- The first `count` pulls are all made by a live buffer. -/
def Pulls (b : Buffer α) (outcomes : Nat → Pull α) (count : Nat) : Prop :=
  ∀ earlier < count, (b.after outcomes earlier).Live

theorem Pulls.mono {b : Buffer α} {outcomes : Nat → Pull α} {count more : Nat}
    (h : b.Pulls outcomes more) (hle : count ≤ more) : b.Pulls outcomes count :=
  fun earlier he => h earlier (Nat.lt_of_lt_of_le he hle)

variable {b : Buffer α} {got : List α}

theorem Sound.absorb (h : b.Sound got) (hf : b.failure = none) (o : Pull α) :
    let r := b.absorb o
    r.1 = r.2.1.failure.map Failure.error ∧ r.2.1.terms = b.terms ∧
      r.2.1.Sound (got ++ o.item?.toList) := by
  cases o with
  | item a =>
    obtain ⟨he, hterms, -, hsound⟩ := h.append hf a
    exact ⟨he, hterms, hsound⟩
  | finished =>
    refine ⟨by simp [Buffer.absorb, hf], rfl, ?_⟩
    simp only [Pull.item?, Option.toList_none, List.append_nil]
    exact ⟨h.initial, h.limit, h.opened, ⟨h.listed.published, h.listed.current⟩,
      ⟨⟨h.holds.consumed, h.holds.bucket, h.holds.reached, h.holds.above⟩, h.holds.below⟩,
      h.standing⟩
  | failed e => exact ⟨by simp [Buffer.absorb, hf], rfl, by simpa [Pull.item?, Buffer.absorb] using h⟩
  | panicked p =>
    exact ⟨by simp [Buffer.absorb, hf], rfl, by simpa [Pull.item?, Buffer.absorb] using h⟩

theorem sound_after {outcomes : Nat → Pull α} {count : Nat} (h : b.Sound [])
    (hp : b.Pulls outcomes count) :
    (b.after outcomes count).terms = b.terms ∧
      (b.after outcomes count).Sound (delivered outcomes count) := by
  induction count with
  | zero => exact ⟨rfl, h⟩
  | succ count ih =>
    obtain ⟨hterms, hsound⟩ := ih fun earlier he => hp earlier (Nat.lt_succ_of_lt he)
    obtain ⟨-, hterms', hsound'⟩ :=
      hsound.absorb (hp count (Nat.lt_succ_self _)).1 (outcomes count)
    rw [delivered_succ]
    exact ⟨hterms'.trans hterms, hsound'⟩

theorem consumed_makeRoom (b : Buffer α) (es : List Event) :
    (b.makeRoom .record es).2.1.consumed = b.consumed := by
  unfold makeRoom extend allocate fail
  split
  · rfl
  · split
    · cases b.failure <;> rfl
    · rfl

theorem consumed_le_keep (b : Buffer α) (a : α) (es : List Event) :
    b.consumed ≤ (b.keep .record a es).2.1.consumed := by
  unfold Buffer.keep store fail
  dsimp only
  split
  · split
    · split
      · cases b.failure <;> exact Nat.le_succ _
      · exact Nat.le_succ _
    · exact Nat.le_succ _
  · exact le_rfl

theorem consumed_le_absorb (b : Buffer α) (o : Pull α) :
    b.consumed ≤ (b.absorb o).2.1.consumed := by
  cases o with
  | item a =>
    have hroom := b.consumed_makeRoom []
    change b.consumed ≤ (b.append .record a []).2.1.consumed
    unfold Buffer.append
    rcases hm : b.makeRoom .record [] with ⟨e, b', es⟩
    rw [hm] at hroom
    cases e with
    | some e => exact hroom.ge
    | none => exact hroom.ge.trans (b'.consumed_le_keep a es)
  | finished => exact le_rfl
  | failed e => exact le_rfl
  | panicked p => exact le_rfl

theorem consumed_after_le (b : Buffer α) (outcomes : Nat → Pull α) {count more : Nat}
    (h : count ≤ more) : (b.after outcomes count).consumed ≤ (b.after outcomes more).consumed := by
  induction more, h using Nat.le_induction with
  | base => exact le_rfl
  | succ more _ ih => exact ih.trans (consumed_le_absorb _ _)

theorem item?_after {outcomes : Nat → Pull α} {count more : Nat} (h : b.Sound [])
    (hp : b.Pulls outcomes more) (hle : count ≤ more) {held : Nat} {p : Position} {a : α}
    (ha : (b.after outcomes count).item? held p = some a) :
    (b.after outcomes more).item? held p = some a := by
  obtain ⟨hterms, hsound⟩ := sound_after h (hp.mono hle)
  obtain ⟨hterms', hsound'⟩ := sound_after h hp
  refine hsound.holds.item? hsound'.holds ?_ ?_ ha
  · exact congrArg Prod.fst (hterms'.trans hterms.symm)
  · have hmono := delivered_mono outcomes hle
    rw [List.prefix_iff_eq_take.mp hmono, List.take_take]
    exact List.take_prefix_take_left
      ((Nat.min_le_left _ _).trans (consumed_after_le b outcomes hle))

end Buffer
end Replay

import Replay.Proofs.Sources.Progress

/-!
The size that a buffer reports. Before exhaustion it is the size hint of the source, afterwards
`consumed`. If the hint is exact the reported size never changes, and readers find that many items.
-/
namespace Replay

open Store

variable {α : Type} {feed : Nat}

namespace Supply

/-- The source brings `total` items before its first end. -/
def Totals (t : Supply α) (total : Nat) : Prop := ∃ n, t.EndsAt n ∧ (t.items n).length = total

/-- The size hint, if there is one, is exact. -/
def Honest (t : Supply α) : Prop := ∀ total, t.hint = some total → t.Totals total

variable {t : Supply α} {count more total offset : Nat}

theorem Totals.eq {other : Nat} (h : t.Totals total) (h' : t.Totals other) : total = other := by
  obtain ⟨n, hn, rfl⟩ := h
  obtain ⟨m, hm, rfl⟩ := h'
  rw [hn.eq hm]

theorem totals_of_exhausted (hvalid : t.config.validate = .ok ()) (hpulls : t.start.Pulls t.outcomes count)
    (h : (t.buffer count).exhausted) :
    (t.buffer count).failure = none ∧ t.Totals (t.buffer count).consumed := by
  obtain ⟨n, rfl, hends⟩ := exists_endsAt hvalid hpulls h
  have hitem : (t.outcomes n).item? = none := by
    rw [hends.finished]
    rfl
  have hf : (t.buffer (n + 1)).failure = none :=
    (Buffer.after_succ_of_item? hitem).1.trans (hpulls n (Nat.lt_succ_self n)).1
  exact ⟨hf, n, hends, hends.items_succ ▸ (sound_buffer hvalid hpulls).length_eq hf⟩

theorem size_buffer (hvalid : t.config.validate = .ok ()) (hpulls : t.start.Pulls t.outcomes count) :
    (t.buffer count).size =
      if (t.buffer count).exhausted then some (t.buffer count).consumed else t.hint := by
  have hhint : (t.buffer count).hint = t.hint :=
    congrArg (fun terms => terms.2.2.2) (terms_buffer hvalid hpulls)
  rw [Buffer.size, hhint]

theorem Honest.totals_of_size (h : t.Honest) (hvalid : t.config.validate = .ok ())
    (hpulls : t.start.Pulls t.outcomes count) (hsize : (t.buffer count).size = some total) :
    t.Totals total := by
  rw [size_buffer hvalid hpulls] at hsize
  split at hsize
  · rename_i hexhausted
    cases hsize
    exact (totals_of_exhausted hvalid hpulls hexhausted).2
  · exact h total hsize

theorem eq_of_exhausted (hpulls : t.start.Pulls t.outcomes more) (hle : count ≤ more)
    (h : (t.buffer count).exhausted) : more = count := by
  by_contra hne
  have hlive := (hpulls count (Nat.lt_of_le_of_ne hle (Ne.symm hne))).2
  exact Bool.false_ne_true (hlive.symm.trans h)

theorem Honest.size_eq (h : t.Honest) (hvalid : t.config.validate = .ok ())
    (hpulls : t.start.Pulls t.outcomes more) (hle : count ≤ more)
    (hsize : (t.buffer count).size = some total) : (t.buffer more).size = some total := by
  have htotal := h.totals_of_size hvalid (hpulls.mono hle) hsize
  rw [size_buffer hvalid hpulls]
  split
  · rename_i hexhausted
    rw [(totals_of_exhausted hvalid hpulls hexhausted).2.eq htotal]
  · rename_i hgoes
    have hearlier : ¬(t.buffer count).exhausted := by
      intro hexhausted
      obtain rfl := eq_of_exhausted hpulls hle hexhausted
      exact hgoes hexhausted
    rwa [size_buffer hvalid (hpulls.mono hle), if_neg hearlier] at hsize

theorem size_kept (t : Supply α) (k : Progress) : (t.kept k).size = (t.buffer k.count).size := by
  unfold kept
  split
  · exact Buffer.size_close _
  · rfl

theorem exhausted_kept (t : Supply α) (k : Progress) :
    (t.kept k).exhausted = (t.buffer k.count).exhausted := by
  unfold kept
  split
  · rfl
  · rfl

theorem Fits.answer {n : Nat} {r : Outcome StreamError Bool} (h : t.Fits n)
    (hvalid : t.config.validate = .ok ()) (hclean : ∀ i, (t.outcomes i).isFault = false)
    (hasked : t.start.Asked t.outcomes count offset more r) :
    r = .ok (decide (offset < (t.items n).length)) := by
  have hlength : (t.buffer more).failure = none → (t.buffer more).consumed = (t.items more).length :=
    fun hf => ((sound_buffer hvalid hasked.pulls).length_eq hf).symm
  rcases r with (e | p) | found
  · rcases hasked.erred e rfl with ⟨f, hf, -⟩ | ⟨-, -, cause, hcause, -⟩
    · cases (h.failure_eq_none hvalid hasked.pulls).symm.trans hf
    · cases (hclean _).symm.trans (congrArg Pull.isFault hcause)
  · obtain ⟨-, -, hpanic⟩ := hasked.panicked p rfl
    cases (hclean _).symm.trans (congrArg Pull.isFault hpanic)
  · cases found with
    | true =>
      obtain ⟨hf, hlt⟩ := hasked.found rfl
      have hprefix := (h.ends.items_prefix hvalid hasked.pulls).length_le
      rw [decide_eq_true ((hlt.trans_eq (hlength hf)).trans_le hprefix)]
    | false =>
      obtain ⟨hf, hexhausted, hle⟩ := hasked.ended rfl
      have htotal := (totals_of_exhausted hvalid hasked.pulls hexhausted).2.eq ⟨n, h.ends, rfl⟩
      have hle' : (t.items n).length ≤ offset := htotal ▸ hle
      rw [decide_eq_false (Nat.not_lt_of_le hle')]

end Supply

namespace Source

variable {config : Config}

theorem ahead_list (xs : List α) (count : Nat) :
    (iterator (some (.list xs))).ahead count = iterator (some (.list (xs.drop count))) := by
  induction count with
  | zero => rfl
  | succ count ih =>
    rw [ahead, ih, ← List.drop_drop]
    cases xs.drop count with
    | nil => rfl
    | cons a xs => rfl

theorem brings_list (xs : List α) (i : Nat) :
    (iterator (some (.list xs))).brings i = (xs[i]?).elim .finished .item := by
  rw [brings, ahead_list, ← List.head?_drop]
  cases xs.drop i with
  | nil => rfl
  | cons a xs => rfl

theorem delivered_list (xs : List α) (count : Nat) :
    delivered (iterator (some (.list xs))).brings count = xs.take count := by
  induction count with
  | zero => rfl
  | succ count ih =>
    rw [delivered_succ, ih, brings_list, List.take_add_one]
    cases xs[count]? with
    | none => rfl
    | some a => rfl

theorem honest_iterator (ahead : Option (Iter α)) (config : Config) :
    ((iterator ahead).supply config).Honest := by
  intro total hhint
  obtain ⟨it, rfl, hexact⟩ := Option.bind_eq_some_iff.mp hhint
  cases it with
  | list xs =>
    rw [Iter.exactSize_list] at hexact
    cases hexact
    refine ⟨xs.length, ⟨?_, fun j hj => ?_⟩, ?_⟩
    · change (iterator (some (.list xs))).brings xs.length = .finished
      rw [brings_list, List.getElem?_eq_none le_rfl]
      rfl
    · change (iterator (some (.list xs))).brings j ≠ .finished
      rw [brings_list, List.getElem?_eq_getElem hj]
      nofun
    · change (delivered (iterator (some (.list xs))).brings xs.length).length = xs.length
      rw [delivered_list, List.take_length]
  | sifted xs =>
    cases xs with
    | nil =>
      cases hexact
      exact ⟨0, ⟨rfl, nofun⟩, rfl⟩
    | cons a xs => simp [Iter.exactSize, Iter.bounds] at hexact
  | gapped xs => cases hexact
  | endless a => cases hexact

end Source

/-- The buffer is exhausted, with the offset beyond its items. -/
def Feeds.Counted (s : Feeds α) (feed offset : Nat) : Prop :=
  ∃ b, s.buffer? feed = some b ∧ b.exhausted ∧ b.size = some b.consumed ∧ b.consumed ≤ offset

/-- The reported size is the number of items, is known after exhaustion, and bounds the offsets at which
readers find items. -/
structure Supply.Sized (t : Supply α) (feed : Nat) (s : Feeds α) (b : Buffer α) : Prop where
  totals : ∀ total, b.size = some total → t.Totals total
  hasNext : ∀ offset s', s.onBuffer feed (Buffer.hasNext (Feeds.tap Feeds.draw feed) offset) =
    (.ok false, s') →
    s'.Counted feed offset
  bucketFor : ∀ offset s',
    s.onBuffer feed (Buffer.bucketFor (Feeds.tap Feeds.draw feed) offset) = (.ok none, s') →
    s'.Counted feed offset
  next : ∀ c d : Cursor, c.feed = feed → ∀ offset s', c.next s = (.raise (.endOfData offset), d, s') →
    s'.Counted feed offset
  finds : ∀ total, b.size = some total → b.isClosed = false → total ≤ t.config.most →
    (∀ i, (t.outcomes i).isFault = false) → ∀ offset,
      (s.onBuffer feed (Buffer.hasNext (Feeds.tap Feeds.draw feed) offset)).1 = .ok (decide (offset < total))

theorem Cursor.obstacle?_ne_endOfData (c : Cursor) (offset : Nat) :
    c.obstacle? ≠ some (.endOfData offset) := by
  induction c with
  | plain feed provider head =>
    unfold obstacle?
    split
    · rintro ⟨⟩
    · rintro ⟨⟩
  | managed janitor released inner ih =>
    unfold obstacle?
    split
    · rintro ⟨⟩
    · exact ih
  | watched slot act inner ih => exact ih

namespace Supply.Answers

variable {t : Supply α} {s s' : Feeds α} {k l : Progress} {offset : Nat} {r : Outcome StreamError Bool}

theorem ne_endOfData (h : t.Answers feed s k offset l r s') (p : Nat) : r ≠ .raise (.endOfData p) := by
  have hfailure : ∀ f : Failure, f.error ≠ .endOfData p := by
    rintro (_ | _)
    · nofun
    · nofun
  rintro rfl
  cases hclosed : k.closed with
  | true =>
    obtain ⟨-, -, hr⟩ := h.shut hclosed
    have he := Outcome.raise_inj.mp hr
    unfold Buffer.refusal at he
    split at he
    · exact hfailure _ he.symm
    · split at he
      · cases he
      · cases he
  | false =>
    obtain ⟨-, hasked⟩ := h.asked hclosed
    rcases hasked.erred _ rfl with ⟨f, -, he⟩ | ⟨-, -, cause, -, he⟩
    · exact hfailure f he.symm
    · cases he

theorem eq_false_of_heldAt (hvalid : t.config.validate = .ok ()) (h : t.Answers feed s k offset l r s')
    (hheld : Buffer.heldAt t.layout offset r = .ok none) : r = .ok false := by
  rcases r with stop | found
  · cases hheld
  · cases found with
    | false => rfl
    | true =>
      cases hclosed : k.closed with
      | true =>
        obtain ⟨-, -, hr⟩ := h.shut hclosed
        cases hr
      | false =>
        obtain ⟨-, hasked⟩ := h.asked hclosed
        obtain ⟨hf, hlt⟩ := hasked.found rfl
        obtain ⟨p, a, hp, -⟩ := (sound_buffer hvalid hasked.pulls).exists_shown hf hlt
        rw [layout_buffer hvalid hasked.pulls] at hp
        rw [Buffer.heldAt, hp] at hheld
        cases hheld

theorem eq_false_of_taken (h : t.Answers feed s k offset l r s') {got : List α} {p : Nat}
    (htaken : Head.taken got offset r = .raise (.endOfData p)) : r = .ok false ∧ p = offset := by
  rcases r with stop | found
  · have hstop : (.error stop : Outcome StreamError α) = Outcome.raise (.endOfData p) := htaken
    cases hstop
    exact absurd rfl (h.ne_endOfData p)
  · cases found with
    | false =>
      cases htaken
      exact ⟨rfl, rfl⟩
    | true =>
      rw [Head.taken] at htaken
      split at htaken
      · cases htaken
      · cases htaken

end Supply.Answers

namespace Source

variable {source : Source α} {config : Config} {s s' : Feeds α} {k l : Progress} {offset : Nat}

theorem Has.counted (hvalid : config.validate = .ok ()) (h : source.Has config feed s' l)
    (ha : (source.supply config).Answers feed s k offset l (.ok false) s') : s'.Counted feed offset := by
  refine ⟨_, h.buffer?_eq, ?_⟩
  cases hclosed : k.closed with
  | true =>
    obtain ⟨-, -, hr⟩ := ha.shut hclosed
    cases hr
  | false =>
    obtain ⟨hopen, hasked⟩ := ha.asked hclosed
    obtain ⟨-, hexhausted, hle⟩ := hasked.ended rfl
    have hkept : (source.supply config).kept l = (source.supply config).buffer l.count := by
      rw [Supply.kept, hopen, if_neg Bool.false_ne_true]
    rw [hkept]
    exact ⟨hexhausted, (Supply.size_buffer hvalid h.pulls).trans (if_pos hexhausted), hle⟩

theorem Has.sized (hsource : source.cursor? = none) (hvalid : config.validate = .ok ())
    (hhonest : (source.supply config).Honest) (h : source.Has config feed s k) :
    (source.supply config).Sized feed s ((source.supply config).kept k) where
  totals total hsize := by
    rw [Supply.size_kept] at hsize
    exact hhonest.totals_of_size hvalid h.pulls hsize
  hasNext offset s' hs' := by
    obtain ⟨l, r, s₁, hl, ha⟩ := h.answers hsource hvalid offset
    cases ha.hasNext.symm.trans hs'
    exact hl.counted hvalid ha
  bucketFor offset s' hs' := by
    obtain ⟨l, r, s₁, hl, ha⟩ := h.answers hsource hvalid offset
    obtain ⟨hheld, rfl⟩ := Prod.mk.inj (ha.bucketFor.symm.trans hs')
    obtain rfl := ha.eq_false_of_heldAt hvalid hheld
    exact hl.counted hvalid ha
  next c d hc offset s' hs' := by
    have hb : s.buffer? c.feed = some _ := hc ▸ h.buffer?_eq
    cases ho : c.obstacle? with
    | some e =>
      have hnext : c.nextBy Feeds.draw s = (.raise (c.obstacle?.getD .bufferClosed), c, s) :=
        Cursor.nextBy_of_refusal hb fun hnone => absurd (ho.symm.trans hnone) (Option.some_ne_none e)
      rw [ho] at hnext
      cases Outcome.raise_inj.mp (congrArg Prod.fst (hnext.symm.trans hs'))
      exact absurd ho (c.obstacle?_ne_endOfData offset)
    | none =>
      obtain ⟨l, r, s₁, hl, ha⟩ := h.answers hsource hvalid c.position
      obtain ⟨d', hnext, -⟩ := ha.nextBy hc ho
      obtain ⟨htaken, hrest⟩ := Prod.mk.inj (hnext.symm.trans hs')
      obtain ⟨rfl, rfl⟩ := ha.eq_false_of_taken htaken
      obtain rfl : s₁ = s' := congrArg Prod.snd hrest
      exact hl.counted hvalid ha
  finds total hsize hopen hmost hclean offset := by
    obtain ⟨l, r, s₁, hl, ha⟩ := h.answers hsource hvalid offset
    rw [Supply.size_kept] at hsize
    obtain ⟨n, hends, rfl⟩ := hhonest.totals_of_size hvalid h.pulls hsize
    have hfits : (source.supply config).Fits n := ⟨hends, hmost⟩
    cases hclosed : k.closed with
    | true =>
      have hshut : ((source.supply config).kept k).closed := by
        rw [Supply.kept, if_pos hclosed]
        rfl
      rw [Buffer.isClosed, hshut, Bool.true_or] at hopen
      cases hopen
    | false =>
      rw [ha.hasNext]
      exact hfits.answer hvalid hclean (ha.asked hclosed).2

end Source

namespace StoreOp

/-- Over a source with an exact size hint or none, once the buffer reports a size it reports the same
size for good, whatever is done. It is known as soon as any reader has met the end, where it equals
`consumed`; while the buffer is open and has not failed, readers find an item at exactly the offsets
below it. -/
theorem size_reported_for_good {m : Store α} {make : StoreOp α} {source : Source α} {config : Config}
    (hvalid : config.validate = .ok ()) (hmake : make.Sets m feed config)
    (hs : m.feeds.source? feed = some source) (hsource : source.cursor? = none)
    (hhonest : (source.supply config).Honest) (ops later : List (StoreOp α))
    (hspare : AllLeaveBuffer feed (make.perform m) (ops ++ later)) :
    ∃ b b', (run m (make :: ops)).feeds.buffer? feed = some b ∧
      (run m (make :: ops ++ later)).feeds.buffer? feed = some b' ∧
      (source.supply config).Sized feed (run m (make :: ops)).feeds b ∧
      (∀ total, b.size = some total → b'.size = some total) ∧
      (b.exhausted → b'.exhausted ∧ b'.consumed = b.consumed) := by
  obtain ⟨hops, hlater⟩ := hspare.append
  obtain ⟨k, -, hk⟩ := progressedTo_run hsource hvalid hops (progressedTo_of_sets hsource hvalid hs hmake)
  obtain ⟨l, hl, hlast⟩ := progressedTo_run hsource hvalid hlater hk.progressedTo
  have hrun : run m (make :: ops ++ later) = run (run m (make :: ops)) later := run_append ..
  refine ⟨_, _, hk.buffer?_eq, hrun ▸ hlast.buffer?_eq, hk.sized hsource hvalid hhonest,
    fun total hsize => ?_,
    fun hexhausted => ?_⟩
  · rw [Supply.size_kept] at hsize ⊢
    exact hhonest.size_eq hvalid hlast.pulls hl.count_le hsize
  · rw [Supply.exhausted_kept] at hexhausted ⊢
    have hcount := Supply.eq_of_exhausted hlast.pulls hl.count_le hexhausted
    rw [Supply.consumed_kept, Supply.consumed_kept, hcount]
    exact ⟨hexhausted, rfl⟩

def threeItems : Store Nat := run {} [.addSource (.iterator (some (.list [4, 5, 6])))]

/-- A buffer over three items, the first of which is read. -/
def readingOne : List (StoreOp Nat) :=
  .addBuffer ⟨2, 1, .unbounded, .owned⟩ 0 :: [.cursorOp (.plain 0 ⟨0⟩ {}) .next]

theorem size_reported_for_good_three :
    (∀ offset, ((run threeItems readingOne).feeds.onBuffer 0
      (Buffer.hasNext (Feeds.tap Feeds.draw 0) offset)).1 = .ok (decide (offset < 3))) ∧
    ∃ b', (run threeItems (readingOne ++ [.hasNext 0 3, .closeBuffer 0])).feeds.buffer? 0 = some b' ∧
      b'.size = some 3 := by
  have hsize : ((run threeItems readingOne).feeds.buffer? 0).map Buffer.size = some (some 3) := rfl
  have hopen : ((run threeItems readingOne).feeds.buffer? 0).map Buffer.isClosed = some false := rfl
  have hclean : ∀ i, ((Source.iterator (some (.list [4, 5, 6]))).brings i).isFault = false := by
    intro i
    rw [Source.brings_list]
    cases [4, 5, 6][i]? with
    | none => rfl
    | some a => rfl
  have hmost : (⟨2, 1, .unbounded, .owned⟩ : Config).most = ⊤ := if_neg Nat.one_ne_zero
  have hmake : (StoreOp.addBuffer ⟨2, 1, .unbounded, .owned⟩ 0).Sets threeItems 0
    ⟨2, 1, .unbounded, .owned⟩ :=
    ⟨rfl, rfl⟩
  obtain ⟨b, b', hb, hb', hsized, hpersist, -⟩ := size_reported_for_good rfl hmake rfl rfl
    (Source.honest_iterator _ _) [.cursorOp (.plain 0 ⟨0⟩ {}) .next] [.hasNext 0 3, .closeBuffer 0]
    ⟨⟨trivial, rfl⟩, ⟨trivial, rfl⟩, ⟨trivial, rfl⟩, trivial⟩
  have hthree := Option.some.inj ((congrArg (Option.map _) hb).symm.trans hsize)
  have hlive := Option.some.inj ((congrArg (Option.map _) hb).symm.trans hopen)
  exact ⟨hsized.finds 3 hthree hlive (hmost ▸ le_top) hclean, b', hb', hpersist 3 hthree⟩

end StoreOp
end Replay

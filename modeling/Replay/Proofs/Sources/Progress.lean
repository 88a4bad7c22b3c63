import Replay.Proofs.Sources.Outcomes
import Replay.Proofs.Watching

/-!
A buffer over its own source, under arbitrary operations on the store: they advance its progress, and do
not change it once it is closed.
-/
namespace Replay

open Store

variable {α : Type} {feed : Nat} {source : Source α} {config : Config} {s : Feeds α} {k l m : Progress}

/-- `l` is a later progress than `k`. -/
structure Progress.Follows (k l : Progress) : Prop where
  count_le : k.count ≤ l.count
  shut : k.closed → l = k

theorem Progress.Follows.refl (k : Progress) : k.Follows k := ⟨le_rfl, fun _ => rfl⟩

theorem Progress.Follows.trans (h : k.Follows l) (h' : l.Follows m) : k.Follows m := by
  refine ⟨h.count_le.trans h'.count_le, fun hk => ?_⟩
  obtain rfl := h.shut hk
  exact h'.shut hk

theorem Progress.Follows.of_open {count : Nat} (hk : k.closed = false) (hle : k.count ≤ count)
    (closed : Bool) :
    k.Follows ⟨closed, count⟩ := ⟨hle, fun hclosed => absurd (hk.symm.trans hclosed) Bool.false_ne_true⟩

namespace Source

/-- The buffer over the source is at progress `k` or later. -/
def ProgressedTo (source : Source α) (config : Config) (feed : Nat) (k : Progress) (s : Feeds α) : Prop :=
  ∃ l, k.Follows l ∧ source.Has config feed s l

theorem Has.progressedTo (h : source.Has config feed s k) : source.ProgressedTo config feed k s :=
  ⟨k, .refl k, h⟩

theorem ProgressedTo.of_has {s' : Feeds α} (h : source.ProgressedTo config feed k s)
    (hs : ∀ l, source.Has config feed s l → source.ProgressedTo config feed l s') :
    source.ProgressedTo config feed k s' := by
  obtain ⟨l, hl, h⟩ := h
  obtain ⟨l', hl', h'⟩ := hs l h
  exact ⟨l', hl.trans hl', h'⟩

theorem refusal_kept (t : Supply α) (hk : k.closed) :
    (t.kept k).refusal = some ((t.buffer k.count).refusal.getD .bufferClosed) := by
  rw [Supply.kept, if_pos hk]
  exact Buffer.refusal_close _

theorem askOnlyInvariant_progressedTo (hsource : source.cursor? = none) (hvalid : config.validate = .ok ()) :
    Feeds.AskOnlyInvariant feed (source.ProgressedTo config feed k) where
  note {s} e h := h.of_has fun l hl =>
    (hl.of_cell (rfl : (Feeds.note e s).cells[feed]? = s.cells[feed]?)).progressedTo
  apart hne f h := h.of_has fun l hl => (hl.of_cell (Feeds.cell_modify_of_ne hne f)).progressedTo
  hasNext {s} depth offset h := h.of_has fun l hl => by
    cases hclosed : l.closed with
    | true =>
      have hrefusal := refusal_kept (source.supply config) hclosed
      rw [Supply.onBuffer_idle hl.buffer?_eq (Buffer.hasNext_of_refusal hrefusal offset)]
      exact hl.progressedTo
    | false =>
      obtain ⟨closed, count⟩ := l
      cases hclosed
      obtain ⟨more, r, s', hs', hasked, -, hnext, -⟩ := hl.asked hvalid (plays_pull hsource feed depth) offset
      rw [hnext]
      exact ⟨_, .of_open rfl hasked.count_le false, hs'⟩
  bucketFor {s} depth offset h := h.of_has fun l hl => by
    cases hclosed : l.closed with
    | true =>
      have hrefusal := refusal_kept (source.supply config) hclosed
      rw [Supply.onBuffer_idle hl.buffer?_eq (Buffer.bucketFor_of_refusal hrefusal offset)]
      exact hl.progressedTo
    | false =>
      obtain ⟨closed, count⟩ := l
      cases hclosed
      obtain ⟨more, r, s', hs', hasked, -, -, hbucket, -⟩ :=
        hl.asked hvalid (plays_pull hsource feed depth) offset
      rw [hbucket]
      exact ⟨_, .of_open rfl hasked.count_le false, hs'⟩

theorem progressedTo_closeBuffer (hvalid : config.validate = .ok ()) (left : Nat) :
    (Store.closeBuffer (switches left : Switches α) feed).Carries
      fun s s' => source.ProgressedTo config feed k s → source.ProgressedTo config feed k s' := by
  intro m h
  refine h.of_has fun l hl => ?_
  have hfreezes := carries_freezes (α := α) feed left
  obtain ⟨tally, hcell⟩ := hl.cell
  cases hclosed : l.closed with
  | true =>
    have hkept : ((source.supply config).kept l).closed := by
      rw [Supply.kept, if_pos hclosed]
      rfl
    have hsame := hfreezes.freezes_closeBuffer feed m _ _ hcell rfl hkept
    exact (hl.of_cell (hsame.trans hcell.symm)).progressedTo
  | false =>
    obtain ⟨closed, count⟩ := l
    cases hclosed
    have hopen : ((source.supply config).kept ⟨false, count⟩).closed = false :=
      (Supply.sound_buffer (t := source.supply config) hvalid hl.pulls).opened
    exact ⟨⟨true, count⟩, .of_open rfl le_rfl true, hl.pulls, _,
      hfreezes.cell_closeBuffer hcell rfl hopen rfl⟩

theorem has_setBuffer (hs : s.source? feed = some source) :
    source.Has config feed (s.setBuffer feed (some (source.supply config).start)) ⟨false, 0⟩ := by
  obtain ⟨c, hc, hsource⟩ := Option.bind_eq_some_iff.mp hs
  refine ⟨fun _ h => absurd h (Nat.not_lt_zero _), c.tally, ?_⟩
  rw [Feeds.setBuffer, Feeds.cell_modify hc, hsource]
  rfl

end Source

namespace StoreOp

/-- The operation creates the buffer of `feed` with this configuration. -/
def Sets (m : Store α) (feed : Nat) (config : Config) : StoreOp α → Prop
  | addBuffer config' other => other = feed ∧ config' = config
  | manage manager other _ => other = feed ∧ ∃ t, m.manager? manager = some t ∧ t.config = config
  | _ => False

/-- Every operation leaves the buffer its source, and creates no other buffer over it. -/
def AllLeaveBuffer (feed : Nat) : Store α → List (StoreOp α) → Prop
  | _, [] => True
  | m, d :: ds => (d.LeavesSource m feed ∧ d.bypasses m = false) ∧ AllLeaveBuffer feed (d.perform m) ds

variable {m : Store α} {d : StoreOp α}

theorem AllLeaveBuffer.append {ds es : List (StoreOp α)} (h : AllLeaveBuffer feed m (ds ++ es)) :
    AllLeaveBuffer feed m ds ∧ AllLeaveBuffer feed (run m ds) es := by
  induction ds generalizing m with
  | nil => exact ⟨trivial, h⟩
  | cons d ds ih =>
    obtain ⟨hds, hes⟩ := ih h.2
    exact ⟨⟨h.1, hds⟩, hes⟩

theorem run_addBuffer_eq (hsource : source.cursor? = none) (hvalid : config.validate = .ok ())
    (hs : m.feeds.source? feed = some source) (w : Switches α) :
    (Store.addBuffer w config feed).run m =
      (.ok (), { m with feeds := m.feeds.setBuffer feed (some (source.supply config).start) }) := by
  have hmade : Buffer.ofConfig config ((m.feeds.source? feed).bind m.feeds.announced) =
      .ok (source.supply config).start := by
    rw [Buffer.ofConfig, hvalid, hs, Option.bind_some, Source.announced_eq hsource]
    rfl
  rw [Store.addBuffer, Call.run_bind, Call.run_get]
  dsimp only
  rw [hmade]
  rfl

theorem progressedTo_of_sets (hsource : source.cursor? = none) (hvalid : config.validate = .ok ())
    (hs : m.feeds.source? feed = some source) (h : d.Sets m feed config) :
    source.ProgressedTo config feed ⟨false, 0⟩ (d.perform m).feeds := by
  cases d with
  | addBuffer config' other =>
    obtain ⟨rfl, rfl⟩ := h
    rw [perform, afterWith_eq, run_addBuffer_eq hsource hvalid hs]
    exact (Source.has_setBuffer hs).progressedTo
  | manage manager other context =>
    obtain ⟨rfl, t, ht, rfl⟩ := h
    have hP : Feeds.AskOnlyInvariant other (source.ProgressedTo t.config other ⟨false, 0⟩) :=
      Source.askOnlyInvariant_progressedTo hsource hvalid
    have hR := hP.steps
    have hrest : Call.Carries _ (do
        let base ← Store.addBase other
        let p ← Manager.manageProvider manager base context
        return .ok p : Call α (Except StreamError (Option Provider))) :=
      hR.store.bind (hR.store.addBase other) fun base =>
        hR.store.bind (hR.manageProvider manager base context) fun _ => hR.store.pure _
    rw [perform, afterWith_eq, Manager.run_manage ht, run_addBuffer_eq hsource hvalid hs]
    exact hrest _ (Source.has_setBuffer hs).progressedTo
  | _ => exact h.elim

theorem progressedTo_perform (hsource : source.cursor? = none) (hvalid : config.validate = .ok ())
    (hleave : d.LeavesSource m feed) (hd : d.bypasses m = false)
    (h : source.ProgressedTo config feed k m.feeds) :
    source.ProgressedTo config feed k (d.perform m).feeds := by
  have hP : Feeds.AskOnlyInvariant feed (source.ProgressedTo config feed k) :=
    Source.askOnlyInvariant_progressedTo hsource hvalid
  refine askOnlyInvariant_perform hP (fun new s h => h.of_has fun l hl => ?_)
    (hP.carries fun left _ => Source.progressedTo_closeBuffer hvalid left) (.inr hleave) ?_ hd h
  · obtain ⟨tally, hcell⟩ := hl.cell
    have hlt := (Array.getElem?_eq_some_iff.mp hcell).1
    exact (hl.of_cell ((Array.getElem?_push_lt hlt).trans (Array.getElem?_eq_getElem hlt).symm)).progressedTo
  · obtain ⟨l, -, hl⟩ := h
    rw [hl.buffer?_eq]
    rfl

theorem progressedTo_run (hsource : source.cursor? = none) (hvalid : config.validate = .ok ())
    {ds : List (StoreOp α)}
    (hspare : AllLeaveBuffer feed m ds) (h : source.ProgressedTo config feed k m.feeds) :
    source.ProgressedTo config feed k (run m ds).feeds := by
  induction ds generalizing m with
  | nil => exact h
  | cons d ds ih => exact ih hspare.2 (progressedTo_perform hsource hvalid hspare.1.1 hspare.1.2 h)

end StoreOp
end Replay

import Replay.Proofs.Shared.Walking
import Replay.Proofs.Sources.Course

/-!
Sources that do not read from another buffer. Their pulls are determined in advance, so a buffer over
such a source is a buffer over a supply. The number of items before the first end is the only size hint
that is correct.
-/
namespace Replay

variable {α : Type} {feed : Nat}

namespace Source

/-- One pull: its outcome, the source after it, and the reads of its device. -/
def step (source : Source α) : Pull α × Source α × Nat :=
  let (o, source, reads, _) := Feeds.pullSource (fun _ s => (.finished, s)) {} source
  (o, source, reads)

def ahead (source : Source α) : Nat → Source α
  | 0 => source
  | count + 1 => (source.ahead count).step.2.1

def brings (source : Source α) (i : Nat) : Pull α := (source.ahead i).step.1

def supply (source : Source α) (config : Config) : Supply α :=
  { config, outcomes := source.brings, hint := source.hint, closing := source.answer }

variable {source : Source α}

theorem pullSource_eq (h : source.cursor? = none) (draw : Feeds.Draw α) (s : Feeds α) :
    s.pullSource draw source = (source.step.1, source.step.2.1, source.step.2.2, s) ∧
      source.step.2.1.cursor? = none := by
  cases source with
  | iterator ahead =>
    cases ahead with
    | none => exact ⟨rfl, rfl⟩
    | some it =>
      unfold step Feeds.pullSource
      dsimp only
      rcases it.next with ⟨_ | a, it'⟩
      · exact ⟨rfl, rfl⟩
      · exact ⟨rfl, rfl⟩
  | script outcomes pulled hint closing => exact ⟨rfl, rfl⟩
  | bytes source item => exact ⟨rfl, rfl⟩
  | chain c => cases h

theorem cursor?_ahead (h : source.cursor? = none) (count : Nat) : (source.ahead count).cursor? = none := by
  induction count with
  | zero => exact h
  | succ count ih => exact (pullSource_eq ih (fun _ s => (.finished, s)) {}).2

theorem announced_eq (h : source.cursor? = none) (s : Feeds α) : s.announced source = source.hint := by
  cases source with
  | chain c => cases h
  | _ => rfl

/-- The feed after `count` pulls, with its buffer taken out. -/
def Feeding (source : Source α) (feed : Nat) (s : Feeds α) (count : Nat) : Prop :=
  ∃ tally, s.cells[feed]? = some ⟨some (source.ahead count), tally, none⟩

/-- The same with the log, which extends `log` as the events of the buffer extend `events`. -/
structure FeedingLog (source : Source α) (feed : Nat) (log events : List Event) (s : Feeds α) (count : Nat)
    (es : List Event) : Prop where
  feeding : source.Feeding feed s count
  new : ∃ new, s.log.toList = log ++ new ∧ es = events ++ new

variable {log events es : List Event} {s : Feeds α} {count : Nat}

theorem FeedingLog.start (h : source.Feeding feed s count) (events : List Event) :
    source.FeedingLog feed s.log.toList events s count events :=
  ⟨h, [], (List.append_nil _).symm, (List.append_nil _).symm⟩

theorem FeedingLog.note (h : source.FeedingLog feed log events s count es) (e : Event) :
    source.FeedingLog feed log events (s.note e) count (es ++ [e]) := by
  obtain ⟨hfeeding, new, hlog, rfl⟩ := h
  refine ⟨hfeeding, new ++ [e], ?_, List.append_assoc _ _ _⟩
  rw [← List.append_assoc, ← hlog]
  exact Array.toList_push

theorem plays_pull (h : source.cursor? = none) (feed depth : Nat) (log events : List Event) :
    (Feeds.tap (Feeds.pull (depth + 1)) feed).Plays source.brings (source.FeedingLog feed log events) where
  pull := by
    rintro s count es ⟨⟨tally, hcell⟩, hnew⟩
    have hsource : s.source? feed = some (source.ahead count) := Feeds.source?_eq hcell
    simp only [Feeds.tap, Feeds.pull, hsource, (pullSource_eq (cursor?_ahead h count) _ _).1, Feeds.count,
      Feeds.setSource]
    exact ⟨rfl, ⟨_, Feeds.cell_modify (Feeds.cell_modify (Feeds.cell_modify hcell _) _) _⟩, hnew⟩
  note e h := h.note e

theorem plays_draw (h : source.cursor? = none) (feed : Nat) (log events : List Event) :
    (Feeds.tap Feeds.draw feed).Plays source.brings (source.FeedingLog feed log events) where
  pull := by
    intro s count es hs
    obtain ⟨tally, hcell⟩ := hs.feeding
    obtain ⟨depth, hdepth⟩ : ∃ depth, s.cells.size = depth + 1 :=
      Nat.exists_eq_add_one.mpr ((Nat.zero_le _).trans_lt (Array.getElem?_eq_some_iff.mp hcell).1)
    have hpull := (plays_pull h feed depth log events).pull hs
    simpa only [Feeds.tap, Feeds.draw, hdepth] using hpull
  note e h := h.note e

/-- The buffer over the source, at progress `k`. -/
structure Has (source : Source α) (config : Config) (feed : Nat) (s : Feeds α) (k : Progress) : Prop where
  pulls : (source.supply config).start.Pulls (source.supply config).outcomes k.count
  cell : ∃ tally, s.cells[feed]? = some
    ⟨if k.closed then none else some (source.ahead k.count), tally, some ((source.supply config).kept k)⟩

variable {config : Config} {s' : Feeds α} {k : Progress}

namespace Has

theorem buffer?_eq (h : source.Has config feed s k) :
    s.buffer? feed = some ((source.supply config).kept k) := by
  obtain ⟨tally, hcell⟩ := h.cell
  exact Feeds.buffer?_eq hcell

theorem of_cell (h : source.Has config feed s k) (hs : s'.cells[feed]? = s.cells[feed]?) :
    source.Has config feed s' k := ⟨h.pulls, hs ▸ h.cell⟩

theorem feeding (h : source.Has config feed s ⟨false, count⟩) :
    source.Feeding feed (s.setBuffer feed none) count := by
  obtain ⟨tally, hcell⟩ := h.cell
  exact ⟨tally, Feeds.cell_modify hcell _⟩

end Has

theorem Feeding.has (hpulls : (source.supply config).start.Pulls (source.supply config).outcomes count)
    (h : source.Feeding feed s count) :
    source.Has config feed (s.setBuffer feed (some ((source.supply config).buffer count)))
      ⟨false, count⟩ := by
  obtain ⟨tally, hcell⟩ := h
  exact ⟨hpulls, tally, Feeds.cell_modify hcell _⟩

namespace Has

theorem asked {draw : Feeds.Draw α} (hvalid : config.validate = .ok ())
    (hplays : ∀ log events, (Feeds.tap draw feed).Plays (source.supply config).outcomes
      (source.FeedingLog feed log events))
    (h : source.Has config feed s ⟨false, count⟩) (offset : Nat) :
    ∃ more r s', source.Has config feed s' ⟨false, more⟩ ∧
      (source.supply config).start.Asked (source.supply config).outcomes count offset more r ∧
      (∃ new, s'.log.toList = s.log.toList ++ new ∧
        (source.supply config).start.events (source.supply config).outcomes more =
          (source.supply config).start.events (source.supply config).outcomes count ++ new) ∧
      s.onBuffer feed (Buffer.hasNext (Feeds.tap draw feed) offset) = (r, s') ∧
      s.onBuffer feed (Buffer.bucketFor (Feeds.tap draw feed) offset) =
        (Buffer.heldAt (source.supply config).layout offset r, s') ∧
      ∀ id (head : Head), head.closed = false → head.position = offset → ∃ head' : Head,
        head'.closed = false ∧ head'.position = (if r = .ok true then offset + 1 else offset) ∧
        (Cursor.plain feed id head).nextBy draw s =
          (Head.taken ((source.supply config).items more) offset r, .plain feed id head', s') := by
  have hb : s.buffer? feed = some ((source.supply config).buffer count) := h.buffer?_eq
  have hstart := Supply.sound_start (t := source.supply config) hvalid
  obtain ⟨more, s', r, hnext, hat, hasked⟩ := Buffer.hasNext_after
    (hplays s.log.toList ((source.supply config).start.events (source.supply config).outcomes count))
    hstart offset h.pulls (FeedingLog.start h.feeding _)
  refine ⟨more, r, _, hat.feeding.has hasked.pulls, hasked, hat.new, ?_, ?_, ?_⟩
  · simp only [Feeds.onBuffer, hb]
    rw [Supply.buffer, hnext]
    rfl
  · simp only [Feeds.onBuffer, hb]
    rw [Supply.buffer, Buffer.bucketFor_after hstart hasked hnext]
    rfl
  · rintro id head hopen rfl
    obtain ⟨head', hopen', hposition, htaken⟩ := Head.next_after hstart hopen h.pulls hasked hnext
    refine ⟨head', hopen', hposition, ?_⟩
    simp only [Cursor.nextBy, hb]
    rw [Supply.buffer, htaken]
    rfl

theorem answers (hsource : source.cursor? = none) (hvalid : config.validate = .ok ())
    (h : source.Has config feed s k) (offset : Nat) : ∃ l r s', source.Has config feed s' l ∧
      (source.supply config).Answers feed s k offset l r s' := by
  obtain ⟨closed, count⟩ := k
  cases closed with
  | false =>
    obtain ⟨more, r, s', hs', hasked, -, hnext, hbucket, htaken⟩ :=
      h.asked hvalid (plays_draw hsource feed) offset
    exact ⟨⟨false, more⟩, r, s', hs', fun _ => ⟨rfl, hasked⟩, nofun, hnext, hbucket, htaken⟩
  | true =>
    have hrefusal : ((source.supply config).kept ⟨true, count⟩).refusal = some _ :=
      ((source.supply config).buffer count).refusal_close
    refine ⟨_, _, s, h, nofun, fun _ => ⟨rfl, rfl, rfl⟩, ?_, ?_, fun id head hopen hposition => ?_⟩
    · exact Supply.onBuffer_idle h.buffer?_eq (Buffer.hasNext_of_refusal hrefusal offset)
    · exact Supply.onBuffer_idle h.buffer?_eq (Buffer.bucketFor_of_refusal hrefusal offset)
    · refine ⟨head, hopen, hposition, ?_⟩
      simp only [Cursor.nextBy, h.buffer?_eq, Head.next_of_refusal hopen hrefusal]
      rw [Feeds.setBuffer_setBuffer h.buffer?_eq]
      rfl

end Has
end Source
end Replay

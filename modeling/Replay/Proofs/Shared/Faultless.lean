import Replay.Proofs.Shared.Interrupted

/-!
Faults of the source are transparent. A reader that retries after each fault reads the items of the same
source without its faults, at the same positions and in the same order.
-/
namespace Replay

open Store

variable {α : Type}

def Pull.isSound (o : Pull α) : Bool := !o.isFault

section tallied

variable {kind : Pull α → Bool} {outcomes : Nat → Pull α} {j l e : Nat}

theorem tallied_mono (h : j ≤ l) : tallied kind outcomes j ≤ tallied kind outcomes l := by
  induction l, h using Nat.le_induction with
  | base => exact le_rfl
  | succ l _ ih =>
    rw [tallied_succ]
    exact ih.trans (Nat.le_add_right _ _)

theorem tallied_lt (hj : kind (outcomes j)) (h : j < l) :
    tallied kind outcomes j < tallied kind outcomes l := by
  refine lt_of_lt_of_le ?_ (tallied_mono (Nat.succ_le_of_lt h))
  rw [tallied_succ, hj]
  exact Nat.lt_succ_self _

theorem exists_tallied (h : e < tallied kind outcomes l) :
    ∃ j < l, kind (outcomes j) ∧ tallied kind outcomes j = e := by
  induction l with
  | zero => exact absurd h (Nat.not_lt_zero _)
  | succ l ih =>
    by_cases hlt : e < tallied kind outcomes l
    · obtain ⟨j, hj, hkind, htallied⟩ := ih hlt
      exact ⟨j, hj.trans (Nat.lt_succ_self l), hkind, htallied⟩
    · rw [tallied_succ] at h
      cases hk : kind (outcomes l) with
      | false =>
        rw [hk] at h
        exact absurd h hlt
      | true =>
        rw [hk, Bool.toNat_true] at h
        exact ⟨l, Nat.lt_succ_self l, hk, by omega⟩

end tallied

open Classical in
/-- The outcomes without their faults; the end, once only faults remain. -/
noncomputable def faultless (outcomes : Nat → Pull α) (i : Nat) : Pull α :=
  if h : ∃ j, (outcomes j).isSound ∧ tallied Pull.isSound outcomes j = i then outcomes h.choose
  else .finished

section faultless

variable {outcomes : Nat → Pull α} {i j : Nat}

theorem faultless_tallied (hj : (outcomes j).isSound) :
    faultless outcomes (tallied Pull.isSound outcomes j) = outcomes j := by
  have hex : ∃ i, (outcomes i).isSound ∧
      tallied Pull.isSound outcomes i = tallied Pull.isSound outcomes j := ⟨j, hj, rfl⟩
  rw [faultless, dif_pos hex]
  obtain ⟨hsound, htallied⟩ := hex.choose_spec
  rcases lt_trichotomy hex.choose j with hlt | heq | hlt
  · exact absurd htallied (tallied_lt hsound hlt).ne
  · rw [heq]
  · exact absurd htallied (tallied_lt hj hlt).ne'

theorem faultless_cases (outcomes : Nat → Pull α) (i : Nat) :
    (∃ j, (outcomes j).isSound ∧ tallied Pull.isSound outcomes j = i) ∨
      faultless outcomes i = .finished := by
  by_cases h : ∃ j, (outcomes j).isSound ∧ tallied Pull.isSound outcomes j = i
  · exact .inl h
  · exact .inr (dif_neg h)

theorem tallied_cons {kind : Pull α → Bool} (o : Pull α) (script : List (Pull α)) (j : Nat) :
    tallied kind (fun i => (o :: script).getD i .finished) (j + 1) =
      (kind o).toNat + tallied kind (fun i => script.getD i .finished) j := by
  unfold tallied
  rw [List.range_succ_eq_map, List.map_cons, List.map_map, List.countP_cons, Nat.add_comm,
    List.getD_cons_zero]
  cases kind o <;> rfl

theorem tallied_script (kind : Pull α → Bool) (script : List (Pull α)) :
    tallied kind (fun i => script.getD i .finished) script.length = (script.filter kind).length := by
  induction script with
  | nil => rfl
  | cons o script ih =>
    rw [List.length_cons, tallied_cons, ih]
    cases ho : kind o with
    | true => rw [List.filter_cons_of_pos ho, List.length_cons, Bool.toNat_true, Nat.add_comm]
    | false => rw [List.filter_cons_of_neg (by simp [ho]), Bool.toNat_false, Nat.zero_add]

theorem faultless_script (script : List (Pull α)) (i : Nat) :
    faultless (fun i => script.getD i .finished) i =
      (script.filter Pull.isSound).getD i .finished := by
  have hsound : ∀ j, (script.getD j .finished).isSound →
      (script.filter Pull.isSound).getD
        (tallied Pull.isSound (fun i => script.getD i .finished) j) .finished =
          script.getD j .finished := by
    clear i
    intro j hj
    induction script generalizing j with
    | nil => rfl
    | cons o script ih =>
      cases j with
      | zero =>
        rw [List.getD_cons_zero] at hj
        rw [List.filter_cons_of_pos hj]
        rfl
      | succ j =>
        rw [List.getD_cons_succ] at hj ⊢
        rw [tallied_cons, ← ih j hj]
        cases ho : o.isSound with
        | true => rw [List.filter_cons_of_pos ho, Bool.toNat_true, Nat.add_comm, List.getD_cons_succ]
        | false => rw [List.filter_cons_of_neg (by simp [ho]), Bool.toNat_false, Nat.zero_add]
  by_cases hex : ∃ j, (script.getD j .finished).isSound ∧
      tallied Pull.isSound (fun i => script.getD i .finished) j = i
  · obtain ⟨j, hj, rfl⟩ := hex
    rw [faultless_tallied hj, hsound j hj]
  · have hle : (script.filter Pull.isSound).length ≤ i := by
      by_contra hlt
      rw [← tallied_script] at hlt
      obtain ⟨j, -, hj⟩ := exists_tallied (Nat.lt_of_not_le hlt)
      exact hex ⟨j, hj⟩
    rw [faultless, dif_neg hex, List.getD_eq_getElem?_getD, List.getElem?_eq_none hle, Option.getD_none]

theorem item?_of_fault {o : Pull α} (h : o.isSound = false) : o.item? = none := by
  cases o with
  | item a => cases h
  | _ => rfl

theorem absorb_of_fault {o : Pull α} (h : o.isSound = false) (b : Buffer α) :
    (b.absorb o).2.1 = b := by
  cases o with
  | item a => cases h
  | finished => cases h
  | failed e => rfl
  | panicked p => rfl

theorem after_faultless (b : Buffer α) (outcomes : Nat → Pull α) (count : Nat) :
    b.after (faultless outcomes) (tallied Pull.isSound outcomes count) = b.after outcomes count := by
  induction count with
  | zero => rfl
  | succ count ih =>
    rw [tallied_succ]
    cases hsound : (outcomes count).isSound with
    | true => rw [Bool.toNat_true, Buffer.after, ih, faultless_tallied hsound, Buffer.after]
    | false => rw [Bool.toNat_false, Nat.add_zero, ih, Buffer.after, absorb_of_fault hsound]

theorem delivered_faultless (outcomes : Nat → Pull α) (count : Nat) :
    delivered (faultless outcomes) (tallied Pull.isSound outcomes count) =
      delivered outcomes count := by
  induction count with
  | zero => rfl
  | succ count ih =>
    rw [tallied_succ, delivered_succ]
    cases hsound : (outcomes count).isSound with
    | true => rw [Bool.toNat_true, delivered_succ, ih, faultless_tallied hsound]
    | false =>
      rw [Bool.toNat_false, Nat.add_zero, ih, item?_of_fault hsound]
      exact (List.append_nil _).symm

end faultless

/-- The reply returns the item `a` at position `p`. -/
def Reply.Shows (p : Nat) (a : α) : Reply α → Prop
  | .item offset r => offset = p ∧ r = .ok a
  | .read offset r => ∃ got i, r = .ok got ∧ got[i]? = some a ∧ offset + i = p
  | .items offset r => ∃ entries i,
      r = .ok entries ∧ (Items.brought entries)[i]? = some a ∧ offset + i = p
  | .drained offset r => ∃ got stop i, r = .ok (got, stop) ∧ got[i]? = some a ∧ offset + i = p
  | _ => False

theorem StretchAt.getElem? {items got : List α} {p i : Nat} {a : α} (h : StretchAt items p got)
    (ha : got[i]? = some a) : items[p + i]? = some a := by
  have hdrop := getElem?_mono h ha
  rwa [List.getElem?_drop] at hdrop

/-- The items that a buffer can store. -/
def Config.keep (c : Config) (items : List α) : List α :=
  if c.increment = 0 then items.take c.initial else c.limit.count?.elim items items.take

namespace Config

variable {c : Config} {items more : List α}

theorem getElem?_keep {p : Nat} {a : α} :
    (c.keep items)[p]? = some a ↔ items[p]? = some a ∧ p < c.most := by
  have htake : ∀ n : Nat, (items.take n)[p]? = some a ↔ items[p]? = some a ∧ (p : ℕ∞) < n := by
    intro n
    rw [List.getElem?_take]
    split
    · rename_i hlt
      simp [hlt]
    · rename_i hlt
      simp [hlt]
  unfold keep most
  split
  · exact htake _
  · cases c.limit.count? with
    | none => simp
    | some limit => exact htake limit

theorem keep_mono (h : items <+: more) : c.keep items <+: c.keep more := by
  have htake : ∀ n, items.take n <+: more.take n := by
    intro n
    obtain ⟨rest, rfl⟩ := h
    rw [List.take_append]
    exact List.prefix_append _ _
  unfold keep
  split
  · exact htake _
  · cases c.limit.count? with
    | none => exact h
    | some limit => exact htake limit

end Config

namespace Supply

variable {t : Supply α} {feed : Nat} {base : Array Event} {k : Progress} {s : Feeds α}

/-- The first `count` pulls bring the item `a` at position `p`, and the buffer can store it. -/
structure Yields (t : Supply α) (count p : Nat) (a : α) : Prop where
  pulls : t.start.Pulls t.outcomes count
  item : (t.items count)[p]? = some a
  most : p < t.config.most

theorem Yields.unique {count more p : Nat} {a a' : α} (h : t.Yields count p a)
    (h' : t.Yields more p a') : a = a' := by
  rcases Nat.le_total count more with hle | hle
  · have hmore := getElem?_mono (delivered_mono t.outcomes hle) h.item
    exact Option.some.inj (hmore.symm.trans h'.item)
  · have hcount := getElem?_mono (delivered_mono t.outcomes hle) h'.item
    exact Option.some.inj (h.item.symm.trans hcount)

theorem AtProgress.nextBy_keep (hvalid : t.config.validate = .ok ()) (h : t.AtProgress feed base s k)
    (id : ProviderId) (head : Head) :
    ∃ l r head' s', k ≤ l ∧ t.AtProgress feed base s' l ∧
      (Cursor.plain feed id head).nextBy Feeds.draw s = (r, .plain feed id head', s') ∧
      match r with
      | .ok a => (t.config.keep (t.items l.count))[head.position]? = some a ∧
          head'.position = head.position + 1
      | _ => head'.position = head.position := by
  obtain ⟨l, r, head', s', hle, hprogress, hnext, hr⟩ := h.nextBy hvalid id head
  refine ⟨l, r, head', s', hle, hprogress, hnext, ?_⟩
  cases r with
  | error stop => exact hr
  | ok a =>
    refine ⟨Config.getElem?_keep.mpr ⟨hr.1, ?_⟩, hr.2⟩
    -- only an open buffer returns an item, and it has stored that item
    have hb := h.buffer?_eq
    have hopen : head.closed = false := by
      rw [← Bool.not_eq_true]
      intro hclosed
      simp only [Cursor.nextBy, hb, Head.next_of_closed hclosed] at hnext
      cases hnext
    obtain ⟨l', r', s'', hprogress', hanswers⟩ := h.answers hvalid head.position
    obtain ⟨head'', -, -, hnext'⟩ := hanswers.next id head hopen rfl
    rw [hnext, Prod.mk.injEq] at hnext'
    obtain ⟨htaken, -⟩ := hnext'
    cases hk : k.closed with
    | true =>
      obtain ⟨-, -, rfl⟩ := hanswers.shut hk
      cases htaken
    | false =>
      obtain ⟨-, hasked⟩ := hanswers.asked hk
      rcases r' with stop | _ | _
      · cases htaken
      · cases htaken
      · obtain ⟨hf, hlt⟩ := hasked.found rfl
        have hlength := (sound_buffer hvalid hasked.pulls).length_eq hf
        have hmost := length_items_le hvalid hasked.pulls hf
        refine lt_of_lt_of_le ?_ hmost
        exact_mod_cast hlt.trans_eq hlength.symm

theorem follows_keep (hvalid : t.config.validate = .ok ()) (feed : Nat) (base : Array Event)
    (id : ProviderId) :
    Cursor.reader.Follows (fun k : Progress => t.config.keep (t.items k.count))
      (t.AtPosition feed base id) where
  mono := fun hle => Config.keep_mono (delivered_mono t.outcomes hle.2.1)
  step := by
    rintro ⟨c, s⟩ k p ⟨head, hc, rfl, h⟩
    obtain rfl : c = .plain feed id head := hc
    obtain ⟨l, r, s', hle, h', hhas⟩ := h.hasNextBy hvalid id head
    simp only [Cursor.reader, Cursor.stepBy, hhas]
    rcases r with stop | _ | _
    · exact ⟨l, head.position, hle, ⟨head, rfl, rfl, h'⟩, rfl⟩
    · exact ⟨l, head.position, hle, ⟨head, rfl, rfl, h'⟩, rfl⟩
    · obtain ⟨m, r, head', s'', hle', h'', hnext, hr⟩ := h'.nextBy_keep hvalid id head
      simp only [hnext]
      refine ⟨m, head'.position, hle.trans hle', ⟨head', rfl, rfl, h''⟩, ?_⟩
      cases r with
      | error stop => exact hr
      | ok a => exact hr

theorem AtPosition.yields {id : ProviderId} {place : Cursor × Feeds α} {q p : Nat} {a : α}
    (h : t.AtPosition feed base id place k q)
    (ha : (t.config.keep (t.items k.count))[p]? = some a) : t.Yields k.count p a := by
  obtain ⟨head, -, -, hprogress⟩ := h
  obtain ⟨hitem, hmost⟩ := Config.getElem?_keep.mp ha
  exact ⟨hprogress.pulls, hitem, hmost⟩

theorem AtProgress.yields_of_shows (hvalid : t.config.validate = .ok ()) {m : Store α}
    (h : t.AtProgress feed base m.feeds k) (id : ProviderId) (head : Head) (cursorOp : CursorOp)
    {p : Nat} {a : α}
    (hshows : ((cursorOp.perform (.plain feed id head)).run m).1.1.Shows p a) : ∃ l, t.Yields l p a := by
  have hstands : t.AtPosition feed base id (.plain feed id head, m.feeds) k head.position :=
    ⟨head, rfl, rfl, h⟩
  have hitems : t.AtPosition feed base id (Items.mk (Cursor.plain feed id head, m.feeds) false).rest k
      head.position := hstands
  have hfollows := follows_keep hvalid feed base id
  cases cursorOp with
  | hasNext => exact hshows.elim
  | seek position =>
    rw [CursorOp.perform] at hshows
    cases hs : Cursor.seek position (.plain feed id head) with
    | ok d =>
      rw [hs] at hshows
      exact hshows.elim
    | error e =>
      rw [hs] at hshows
      exact hshows.elim
  | release => exact hshows.elim
  | close => exact hshows.elim
  | next =>
    obtain ⟨l, r, head', s', -, hprogress, hnext, hr⟩ := h.nextBy_keep hvalid id head
    simp only [CursorOp.perform, Cursor.read, onFeeds, Call.run_bind, Call.run_modifyGet, Call.run_pure,
      Cursor.next, hnext] at hshows
    obtain ⟨rfl, rfl⟩ := hshows
    obtain ⟨hitem, hmost⟩ := Config.getElem?_keep.mp hr.1
    exact ⟨l.count, hprogress.pulls, hitem, hmost⟩
  | read room =>
    obtain ⟨l, q, -, hat, hr⟩ := hfollows.fill room hstands
    obtain ⟨got, i, hgot, ha, rfl⟩ := hshows
    rw [hgot] at hr
    exact ⟨l.count, hat.yields (hr.1.getElem? ha)⟩
  | items n =>
    obtain ⟨l, q, -, hat, hr⟩ := hfollows.take n hitems
    obtain ⟨entries, i, hentries, ha, rfl⟩ := hshows
    exact ⟨l.count, hat.yields ((hr entries hentries).1.getElem? ha)⟩
  | drain most =>
    obtain ⟨l, q, -, hat, hr⟩ := hfollows.drain most #[] hitems
    obtain ⟨got, stop, i, hdrained, ha, rfl⟩ := hshows
    obtain ⟨all, rfl, hall, -⟩ := hr got stop hdrained
    refine ⟨l.count, hat.yields (hall.getElem? ?_)⟩
    simpa using ha

variable {s : Shared α} {count more l p : Nat} {a : α} {r : Outcome StreamError Bool}

theorem Reached.yields_of_shows (hvalid : t.config.validate = .ok ()) (h : t.Reached base s k)
    {u : SharedOp} (hshows : (s.use u).1.Shows p a) : ∃ l, t.Yields l p a := by
  cases u with
  | cursorOp i cursorOp =>
    cases hi : s.cursors[i]? with
    | none =>
      simp only [Shared.use, hi] at hshows
      exact hshows.elim
    | some c =>
      obtain ⟨id, head, rfl⟩ := h.cursors c (List.mem_of_getElem? hi)
      simp only [Shared.use, hi] at hshows
      exact h.atProgress.yields_of_shows hvalid id head cursorOp hshows
  | _ => exact hshows.elim

theorem Yields.failure_eq_none (hvalid : t.config.validate = .ok ()) (h : t.Yields l p a)
    (hf : (t.buffer count).failure = none) (hasked : t.start.Asked t.outcomes count p more r) :
    (t.buffer more).failure = none := by
  by_contra hfailed
  obtain ⟨f, hf'⟩ := Option.ne_none_iff_exists'.mp hfailed
  have hlength : (t.items count).length = (t.buffer count).consumed :=
    (sound_buffer hvalid (hasked.pulls.mono hasked.count_le)).length_eq hf
  have hadd : more ≤ count + (p + 1 - (t.buffer count).consumed) := hasked.le_add
  have hlt : count < more := by
    refine hasked.count_le.lt_of_ne ?_
    rintro rfl
    exact hfailed hf
  obtain ⟨⟨most, hmost, hmore⟩, -⟩ := length_items_of_failure hvalid hasked.pulls hf'
  have hgrown : (t.items more).length ≤ (t.items count).length + (more - count) :=
    length_delivered_le hasked.count_le
  have hkept : p < most := by
    have hkeep := h.most
    rw [hmost] at hkeep
    exact_mod_cast hkeep
  omega

theorem Yields.ne_ended (hvalid : t.config.validate = .ok ()) (h : t.Yields l p a)
    (hasked : t.start.Asked t.outcomes count p more r) : r ≠ .ok false := by
  intro hr
  have hp : p < (t.items l).length := (List.getElem?_eq_some_iff.mp h.item).1
  obtain ⟨hf, hexhausted, hle⟩ := hasked.ended hr
  have hlength : (t.items more).length = (t.buffer more).consumed :=
    (sound_buffer hvalid hasked.pulls).length_eq hf
  have hconsumed : (t.buffer more).consumed ≤ p := hle
  by_cases hlt : more < l
  · have hlive : (t.buffer more).exhausted = false := (h.pulls more hlt).2
    rw [buffer, hexhausted] at hlive
    cases hlive
  · have hprefix : (t.items l).length ≤ (t.items more).length :=
      (delivered_mono t.outcomes (Nat.le_of_not_lt hlt)).length_le
    omega

theorem Yields.found_or_fault (hvalid : t.config.validate = .ok ()) (h : t.Yields l p a)
    (hf : (t.buffer count).failure = none) (hasked : t.start.Asked t.outcomes count p more r) :
    (r = .ok true ∧ (t.items more)[p]? = some a) ∨
      ∃ stop, r = .error stop ∧ stop.isFault ∧ (t.buffer more).failure = none ∧ count < more ∧
        count < l := by
  have hp : p < (t.items l).length := (List.getElem?_eq_some_iff.mp h.item).1
  have hlength : (t.items count).length = (t.buffer count).consumed :=
    (sound_buffer hvalid (hasked.pulls.mono hasked.count_le)).length_eq hf
  have hadd : more ≤ count + (p + 1 - (t.buffer count).consumed) := hasked.le_add
  -- an item that was pulled is stored, so no further pull is made for it
  have hahead : count < more → count < l := by
    intro hlt
    by_contra hle
    have hprefix := (delivered_mono t.outcomes (Nat.le_of_not_lt hle)).length_le
    have hitems : (t.items l).length ≤ (t.items count).length := hprefix
    omega
  rcases r with (e | panic) | _ | _
  · rcases hasked.erred e rfl with ⟨f, hf', rfl⟩ | ⟨hlive, hlt, c, -, rfl⟩
    · cases hf'.symm.trans (h.failure_eq_none hvalid hf hasked)
    · exact .inr ⟨_, rfl, rfl, hlive.1, hlt, hahead hlt⟩
  · obtain ⟨hlive, hlt, -⟩ := hasked.panicked panic rfl
    exact .inr ⟨_, rfl, rfl, hlive.1, hlt, hahead hlt⟩
  · exact absurd rfl (h.ne_ended hvalid hasked)
  · obtain ⟨hf', hlt⟩ := hasked.found rfl
    have hmore : (t.items more).length = (t.buffer more).consumed :=
      (sound_buffer hvalid hasked.pulls).length_eq hf'
    have hconsumed : p < (t.buffer more).consumed := hlt
    have hitem : t.Yields more p (t.items more)[p] :=
      ⟨hasked.pulls, List.getElem?_eq_getElem _, h.most⟩
    exact .inl ⟨rfl, by rw [h.unique hitem]; exact hitem.item⟩

end Supply

namespace Shared

/-- Retrying `next` at the cursor `i` fails finitely often and then returns the item. -/
def Retries (s : Shared α) (i p : Nat) (a : α) : Prop :=
  ∃ tries, (∀ reply ∈ (s.run (List.replicate tries (.cursorOp i .next))).1,
      ∃ stop, reply.stop? = some stop ∧ stop.isFault) ∧
    ((s.run (List.replicate tries (.cursorOp i .next))).2.use (.cursorOp i .next)).1 = .item p (.ok a)

theorem Retries.zero {s : Shared α} {i p : Nat} {a : α}
    (h : (s.use (.cursorOp i .next)).1 = .item p (.ok a)) : s.Retries i p a := ⟨0, nofun, h⟩

theorem Retries.succ {s : Shared α} {i p : Nat} {a : α} {stop : Stop StreamError}
    (hreply : (s.use (.cursorOp i .next)).1.stop? = some stop) (hstop : stop.isFault)
    (h : (s.use (.cursorOp i .next)).2.Retries i p a) : s.Retries i p a := by
  obtain ⟨tries, hfaults, hitem⟩ := h
  refine ⟨tries + 1, fun reply hmem => ?_, hitem⟩
  rcases List.mem_cons.mp hmem with rfl | hmem
  · exact ⟨stop, hreply, hstop⟩
  · exact hfaults reply hmem

end Shared

namespace Supply

variable {t : Supply α} {base : Array Event} {k : Progress} {s : Shared α} {count l p : Nat} {a : α}

theorem Reached.retries (hvalid : t.config.validate = .ok ()) (h : t.Reached base s ⟨false, count⟩)
    (hf : (t.buffer count).failure = none) {i : Nat} {id : ProviderId} {head : Head}
    (hi : s.cursors[i]? = some (.plain s.feed id head)) (hopen : head.closed = false)
    (hyields : t.Yields l head.position a) : s.Retries i head.position a := by
  induction hn : l - count using Nat.strong_induction_on generalizing s count head with
  | _ n ih =>
    obtain ⟨⟨closed, more⟩, r, s', hprogress, hanswers⟩ := h.atProgress.answers_open hvalid head.position
    obtain ⟨hclosed, hasked⟩ := hanswers.asked rfl
    obtain rfl : closed = false := hclosed
    obtain ⟨head', hopen', hposition, hnext⟩ := hanswers.next id head hopen rfl
    have huse : s.use (.cursorOp i .next) =
        (.item head.position (Head.taken (t.items more) head.position r),
          { s with
            store := { s.store with feeds := s' }
            cursors := s.cursors.set i (.plain s.feed id head') }) := by
      simp only [Shared.use, hi, CursorOp.perform, Cursor.read, onFeeds, Call.run_bind,
        Call.run_modifyGet, Call.run_pure, Cursor.next, hnext]
      rfl
    rcases hyields.found_or_fault hvalid hf hasked with
      ⟨rfl, hitem⟩ | ⟨stop, rfl, hstop, hf', hlt, hahead⟩
    · refine .zero ?_
      rw [huse, Head.taken, hitem]
    · have hmore : count < more := hlt
      have hsame : head'.position = head.position := hposition
      have hreached : t.Reached base (s.use (.cursorOp i .next)).2 ⟨false, more⟩ := by
        rw [huse]
        refine ⟨hprogress, fun c hc => ?_⟩
        rcases List.mem_or_eq_of_mem_set hc with hc | rfl
        · exact h.cursors c hc
        · exact ⟨id, head', rfl⟩
      have hi' : (s.use (.cursorOp i .next)).2.cursors[i]? =
          some (.plain (s.use (.cursorOp i .next)).2.feed id head') := by
        rw [huse]
        exact List.getElem?_set_self (List.getElem?_eq_some_iff.mp hi).1
      refine .succ (by rw [huse]; rfl) hstop ?_
      rw [← hsame]
      exact ih (l - more) (by omega) hreached hf' hi' hopen' (hsame.symm ▸ hyields) rfl

/-- The supply with its faults removed. -/
noncomputable def cleaned (t : Supply α) : Supply α := { t with outcomes := faultless t.outcomes }

/-- Some run over a buffer of the source returns `a` at `p`. -/
def Observed (t : Supply α) (m : Store α) (p : Nat) (a : α) : Prop :=
  ∃ us u, (((Shared.begin m t).2.run us).2.use u).1.Shows p a

theorem observed_iff (hvalid : t.config.validate = .ok ()) (m : Store α) :
    t.Observed m p a ↔ ∃ l, t.Yields l p a := by
  obtain ⟨s, hs, hreached⟩ := reached_begin hvalid m
  obtain rfl : (Shared.begin m t).2 = s := congrArg Prod.snd hs
  constructor
  · rintro ⟨us, u, hshows⟩
    obtain ⟨k, -, h, -⟩ := hreached.run hvalid us
    exact h.yields_of_shows hvalid hshows
  · rintro ⟨l, hyields⟩
    -- seek to the position and retry `next`; each fault costs one attempt
    let s := ((Shared.begin m t).2.run [.addCursor ⟨0⟩, .cursorOp 0 (.seek p)]).2
    have hcursors : s.cursors[0]? = some (.plain s.feed ⟨0⟩ { position := p }) := rfl
    have hs : t.Reached m.feeds.log s ⟨false, 0⟩ := by
      refine ⟨hreached.atProgress, fun c hc => ?_⟩
      obtain rfl := List.mem_singleton.mp hc
      exact ⟨⟨0⟩, { position := p }, rfl⟩
    obtain ⟨tries, -, hitem⟩ := hs.retries hvalid rfl hcursors rfl hyields
    exact ⟨_ :: _ :: List.replicate tries (.cursorOp 0 .next), .cursorOp 0 .next, by
      rw [show (((Shared.begin m t).2.run (.addCursor ⟨0⟩ :: .cursorOp 0 (.seek p) ::
        List.replicate tries (.cursorOp 0 .next))).2.use (.cursorOp 0 .next)).1 = .item p (.ok a) from hitem]
      exact ⟨rfl, rfl⟩⟩

theorem buffer_cleaned (t : Supply α) (count : Nat) :
    t.cleaned.buffer (tallied Pull.isSound t.outcomes count) = t.buffer count :=
  after_faultless t.start t.outcomes count

theorem items_cleaned (t : Supply α) (count : Nat) :
    t.cleaned.items (tallied Pull.isSound t.outcomes count) = t.items count :=
  delivered_faultless t.outcomes count

theorem Yields.cleaned (h : t.Yields count p a) :
    t.cleaned.Yields (tallied Pull.isSound t.outcomes count) p a where
  pulls earlier he := by
    obtain ⟨j, hj, -, rfl⟩ := exists_tallied he
    have hlive : (t.buffer j).Live := h.pulls j hj
    rw [← buffer_cleaned] at hlive
    exact hlive
  item := by
    rw [items_cleaned]
    exact h.item
  most := h.most

/-- The first `count` pulls without faults and the first `l` with them bring the same items. -/
structure Catches (t : Supply α) (count l : Nat) : Prop where
  pulls : t.start.Pulls t.outcomes l
  items : t.items l = t.cleaned.items count
  live : (t.cleaned.buffer count).Live →
    t.buffer l = t.cleaned.buffer count ∧ tallied Pull.isSound t.outcomes l = count

theorem after_faults {outcomes : Nat → Pull α} {b : Buffer α} {j : Nat}
    (htallied : tallied Pull.isSound outcomes l = tallied Pull.isSound outcomes j) {i : Nat}
    (hli : l ≤ i) (hij : i ≤ j) : b.after outcomes i = b.after outcomes l := by
  have hi : tallied Pull.isSound outcomes i = tallied Pull.isSound outcomes l :=
    Nat.le_antisymm ((tallied_mono hij).trans_eq htallied.symm) (tallied_mono hli)
  rw [← after_faultless b outcomes i, hi, after_faultless]

theorem exists_catches (hp : t.cleaned.start.Pulls t.cleaned.outcomes count) :
    ∃ l, t.Catches count l := by
  induction count with
  | zero => exact ⟨0, fun _ he => absurd he (Nat.not_lt_zero _), rfl, fun _ => ⟨rfl, rfl⟩⟩
  | succ count ih =>
    obtain ⟨l, hpulls, hitems, hcaught⟩ := ih (hp.mono (Nat.le_succ _))
    have hlive : (t.cleaned.buffer count).Live := hp count (Nat.lt_succ_self _)
    obtain ⟨hbuffer, htallied⟩ := hcaught hlive
    rcases faultless_cases t.outcomes count with ⟨j, hj, hcount⟩ | hfinished
    · -- the next outcome without a fault; everything pulled before it is a fault
      have hle : l ≤ j := by
        by_contra hlt
        have hless := tallied_lt hj (Nat.lt_of_not_le hlt)
        omega
      have hfaults := fun i (hli : l ≤ i) (hij : i ≤ j) =>
        after_faults (b := t.start) (htallied.trans hcount.symm) hli hij
      have hnext : tallied Pull.isSound t.outcomes (j + 1) = count + 1 := by
        rw [tallied_succ, hj, hcount]
        rfl
      refine ⟨j + 1, fun earlier he => ?_, ?_, fun _ => ⟨?_, hnext⟩⟩
      · rcases Nat.lt_or_ge earlier l with hlt | hge
        · exact hpulls earlier hlt
        · rw [hfaults earlier hge (Nat.le_of_lt_succ he)]
          change (t.buffer l).Live
          rw [hbuffer]
          exact hlive
      · rw [← items_cleaned, hnext]
      · rw [← buffer_cleaned, hnext]
    · refine ⟨l, hpulls, ?_, fun hlive' => ?_⟩
      · rw [hitems]
        change delivered _ count = delivered _ (count + 1)
        rw [delivered_succ, show t.cleaned.outcomes count = .finished from hfinished]
        exact (List.append_nil _).symm
      · have hexhausted : (t.cleaned.buffer (count + 1)).exhausted := by
          rw [buffer, Buffer.after, show t.cleaned.outcomes count = .finished from hfinished]
          rfl
        rw [hlive'.2] at hexhausted
        cases hexhausted

theorem yields_cleaned_iff : (∃ l, t.cleaned.Yields l p a) ↔ ∃ l, t.Yields l p a := by
  constructor
  · rintro ⟨count, h⟩
    obtain ⟨l, hpulls, hitems, -⟩ := exists_catches h.pulls
    exact ⟨l, hpulls, hitems ▸ h.item, h.most⟩
  · rintro ⟨count, h⟩
    exact ⟨_, h.cleaned⟩

end Supply

namespace Shared

/-- A fault stops the operation whose pull meets it and no other. The buffer is as if only the items
before the fault had been read; no cursor has moved. -/
structure Atomic (s : Shared α) (t : Supply α) : Prop where
  interrupted : ∀ u offset stop, s.asked? u = some offset → (s.use u).1.stop? = some stop →
    stop.isFault → ∃ items, s.Interrupted (s.use u).2 t items stop
  reported : ∀ u offset stop j, s.asked? u = some offset → s.pulls ≤ j → j < (s.use u).2.pulls →
    (t.outcomes j).fault? = some stop → (s.use u).1.stop? = some stop

/-- Each fault is atomic: it stops one operation and leaves no trace. The items returned at each
position are those of the fault-free source, and while the buffer is open a cursor that retries comes to
each of them. -/
theorem faults_transparent (t : Supply α) (hvalid : t.config.validate = .ok ()) (m m' : Store α) :
    ∃ s, begin m t = (.ok (), s) ∧ (∀ us, (s.run us).2.Atomic t) ∧
      (∀ p a, t.Observed m p a ↔ t.cleaned.Observed m' p a) ∧
      (∀ p a b, t.Observed m p a → t.Observed m p b → a = b) ∧
      ∀ us i c b a, (s.run us).2.cursors[i]? = some c → c.isClosed = false →
        (s.run us).2.buffer? = some b → b.isClosed = false →
        t.cleaned.Observed m' c.position a → (s.run us).2.Retries i c.position a := by
  obtain ⟨s, hs, hreached⟩ := Supply.reached_begin hvalid m
  have hobserved : ∀ p a, t.Observed m p a ↔ t.cleaned.Observed m' p a := fun p a =>
    (Supply.observed_iff hvalid m).trans
      (Supply.yields_cleaned_iff.symm.trans (Supply.observed_iff (t := t.cleaned) hvalid m').symm)
  refine ⟨s, hs, fun us => ?_, hobserved, fun p a b ha hb => ?_, fun us i c b a hi hc hb hopen ha => ?_⟩
  · obtain ⟨k, -, h, -⟩ := hreached.run hvalid us
    exact ⟨fun u offset stop hu hreply hstop => h.interrupted hu hreply hstop,
      fun u offset stop j hu hle hlt hfault => h.reports hvalid hu hle hlt hfault⟩
  · obtain ⟨l, hl⟩ := (Supply.observed_iff hvalid m).mp ha
    obtain ⟨l', hl'⟩ := (Supply.observed_iff hvalid m).mp hb
    exact hl.unique hl'
  · obtain ⟨⟨closed, count⟩, -, h, -⟩ := hreached.run hvalid us
    obtain ⟨l, hl⟩ := (Supply.observed_iff hvalid m).mp ((hobserved _ _).mpr ha)
    obtain rfl := Option.some.inj (h.buffer?_eq.symm.trans hb)
    obtain ⟨hclosed, hf⟩ := Bool.or_eq_false_iff.mp hopen
    obtain rfl : closed = false := by
      cases closed with
      | false => rfl
      | true => cases hclosed
    obtain ⟨id, head, rfl⟩ := h.cursors c (List.mem_of_getElem? hi)
    rw [Supply.failure_kept, Option.isSome_eq_false_iff, Option.isNone_iff_eq_none] at hf
    exact h.retries hvalid hf hi hc hl

/-- Two items, with an error before the second and a panic after it. -/
def stumbling : Supply Nat where
  config := ⟨1, 1, .unbounded, .owned⟩
  outcomes i :=
    ([.item 7, .failed (.failed "late"), .item 8, .panicked ⟨none⟩] : List (Pull Nat)).getD i .finished

theorem faults_transparent_stumbling :
    ∃ s, begin {} stumbling = (.ok (), s) ∧
      (s.use (.hasNext 1)).1.stop? = some (.error (.source (.failed "late"))) ∧
      (∃ items, s.Interrupted (s.use (.hasNext 1)).2 stumbling items
        (.error (.source (.failed "late")))) ∧
      ∀ p a, stumbling.Observed {} p a ↔ stumbling.cleaned.Observed {} p a := by
  obtain ⟨s, hs, hatomic, hobserved, -⟩ := faults_transparent stumbling rfl {} {}
  obtain rfl : (begin {} stumbling).2 = s := congrArg Prod.snd hs
  have hstop : ((begin {} stumbling).2.use (.hasNext 1)).1.stop? =
      some (.error (.source (.failed "late"))) := rfl
  exact ⟨_, hs, hstop, (hatomic []).interrupted _ 1 _ rfl hstop rfl, hobserved⟩

end Shared
end Replay

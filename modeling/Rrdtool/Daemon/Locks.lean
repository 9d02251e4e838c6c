import Rrdtool.Daemon.Queue

/-!
# Which locks are released

`handle_request` and `journal_init` from a thread that holds no lock, among other threads that
may change the cache and `state` whenever `cache_lock` is free.

* `locks_released_iff` — all locks are released unless a new file meets a daemon that has shut
  down in the meantime, or `journal_init` fails on its way to the first journal file;
* `update_keeps_cache_lock` — such an `UPDATE`.
-/

namespace Rrdtool.Daemon

open Wp

variable {w t : World} {sock : Option Sock} {opts : Opts} {now : ℤ}

/-! ## Handlers -/

theorem wp_withAccess {file : Text} {k : Thr ℤ} {Q : World → Prop} (hwf : w.cache.Wf)
    (hk : fileAccess opts sock file = true → wp k (fun _ t => Q t) w)
    (hno : fileAccess opts sock file = false → ∀ t, Returned w t → Q t) :
    wp (withAccess opts sock file k) (fun _ t => Q t) w := by
  rw [withAccess]
  cases hacc : fileAccess opts sock file with
  | true => exact hk hacc
  | false =>
    refine wp_bind.mpr (wp_mono (wp_sendResponse hwf) fun _ t ht => wp_pure.mpr ?_)
    exact hno hacc t ht

theorem wp_withFile {cmd : Cmd} {buffer : Text} {k : Text → Text → Thr ℤ} {Q : World → Prop}
    (hwf : w.cache.Wf)
    (hk : ∀ file rest, bufferGetField buffer = some (file, rest) →
      wp (k (getAbsPath opts.baseDir (cstr file)) rest) (fun _ t => Q t) w)
    (hno : bufferGetField buffer = none → ∀ t, Returned w t → Q t) :
    wp (withFile opts sock cmd buffer k) (fun _ t => Q t) w := by
  rw [withFile]
  cases hb : bufferGetField buffer with
  | none => exact wp_mono (wp_sendResponse hwf) fun _ t ht => hno hb t ht
  | some r => exact hk r.1 r.2 hb

theorem wp_countStats {α : Type} {f : Unit → Thr α} {Q : α → World → Prop}
    (hs : w.held .stats = false) (h : wp (f ()) Q w) : wp (countStats >>= f) Q w := by
  refine wp_bind.mpr (wp_mono (within_countStats hs) ?_)
  rintro _ _ ⟨c, rfl, rfl⟩
  exact h

theorem wp_flushFile (file : Text) (hf : Free w sock) :
    wp (flushFile file) (fun _ t => Returned w t) w := by
  refine wp_bind.mpr (wp_mono (wp_flushStart file hf) fun r t ht => ?_)
  have hft := ht.free hf
  obtain _ | _ | _ := r
  · exact wp_pure.mpr ht
  · exact wp_pure.mpr ht
  · refine wp_bind.mpr (wp_lock hft.cache (wp_bind.mpr ?_))
    refine wp_unlock (c := t.locked.cache) hft.cache (wp_pure.mpr ?_)
    exact ht.trans ⟨hft.locked_wf, rfl, rfl, rfl⟩

theorem wp_handleRequestFlush (buffer : Text) (hf : Free w sock) :
    wp (handleRequestFlush opts sock buffer) (fun _ t => Returned w t) w := by
  refine wp_withFile hf.wf (fun file rest _ => ?_) fun _ t ht => ht
  refine wp_countStats hf.stats (wp_withAccess hf.wf (fun _ => ?_) fun _ t ht => ht)
  refine wp_bind.mpr (wp_mono (wp_flushFile _ hf) fun r t ht => ?_)
  have hsend : ∀ rc reply, wp (sendResponse sock rc reply) (fun _ u => Returned w u) t :=
    fun rc reply => wp_mono (wp_sendResponse ht.wf) fun _ u hu => ht.trans hu
  cases r with
  | true => exact hsend _ _
  | false =>
    refine wp_bind.mpr (wp_bind.mpr (wp_get.mpr (wp_pure.mpr ?_)))
    split_ifs
    · exact hsend _ _
    · exact hsend _ _

theorem wp_handleRequestFlushall (hf : Free w sock) :
    wp (handleRequestFlushall opts sock) (fun _ t => Returned w t) w := by
  refine wp_bind.mpr (wp_mono (wp_flushSection (-1) hf) fun _ t ht => ?_)
  exact wp_mono (wp_sendResponse ht.wf) fun _ u hu => ht.trans hu

theorem wp_handleRequestPending (buffer : Text) (hf : Free w sock) :
    wp (handleRequestPending opts sock buffer) (fun _ t => Returned w t) w := by
  refine wp_withFile hf.wf (fun file rest _ => ?_) fun _ t ht => ht
  refine wp_bind.mpr (wp_lock hf.cache ?_)
  refine wp_bind.mpr (wp_bind.mpr (wp_get.mpr (wp_pure.mpr ?_)))
  cases htree : w.locked.cache.tree (getAbsPath opts.baseDir (cstr file)) with
  | none => exact wp_unlock_send (c := w.locked.cache) hf.cache hf.locked_wf
  | some a =>
    obtain ⟨ci, hci, -⟩ := hf.locked_wf.item_of_tree htree
    refine wp_bind.mpr (wp_mono (wp_item hci) ?_)
    rintro _ _ ⟨rfl, rfl⟩
    exact wp_unlock_send (c := w.locked.cache) hf.cache hf.locked_wf

theorem wp_handleRequestForget (buffer : Text) (hf : Free w sock) :
    wp (handleRequestForget opts sock buffer) (fun _ t => Returned w t) w := by
  refine wp_withFile hf.wf (fun file rest _ => ?_) fun _ t ht => ht
  refine wp_withAccess hf.wf (fun _ => ?_) fun _ t ht => ht
  refine wp_bind.mpr (wp_mono (wp_forgetSection _ hf) fun r t ht => ?_)
  have hft := ht.free hf
  have hsend : ∀ rc reply, wp (sendResponse sock rc reply) (fun _ u => Returned w u) t :=
    fun rc reply => wp_mono (wp_sendResponse ht.wf) fun _ u hu => ht.trans hu
  cases r with
  | true =>
    have hjournal : Within t (journalUnlessReplay sock) fun _ c => c = t.cache := by
      rw [journalUnlessReplay]
      split_ifs with hsome
      · exact within_journalAppend hft.stats (hft.journal hsome)
      · exact within_pure rfl
    refine wp_bind.mpr (wp_mono hjournal ?_)
    rintro _ _ ⟨c, rfl, rfl⟩
    exact hsend _ _
  | false => exact hsend _ _

/-- The loop of `QUEUE` ends where the queue ends. -/
theorem within_walkQueue {p : Option ℕ} {q : List ℕ} (hq : Dll.Follows w.cache.mem.next p q)
    (hitem : ∀ a ∈ q, ∃ ci, w.cache.item a = some ci) {fuel : ℕ} (hlen : q.length ≤ fuel) :
    Within w (walkQueue fuel p) fun _ c => c = w.cache := by
  induction q generalizing p fuel with
  | nil =>
    obtain rfl : p = none := hq
    cases fuel <;> exact within_pure rfl
  | cons a q ih =>
    obtain ⟨rfl, hq⟩ := hq
    obtain ⟨fuel, rfl⟩ : ∃ n, fuel = n + 1 := ⟨fuel - 1, by simp at hlen; omega⟩
    obtain ⟨ci, hci⟩ := hitem a List.mem_cons_self
    refine within_item hci (within_get ?_)
    refine (ih hq (fun b hb => hitem b (List.mem_cons_of_mem a hb)) (by simpa using hlen)).bind ?_
    rintro _ _ rfl
    exact within_pure rfl

theorem wp_handleRequestQueue (hf : Free w sock) :
    wp (handleRequestQueue sock) (fun _ t => Returned w t) w := by
  refine wp_bind.mpr (wp_lock hf.cache (wp_bind.mpr (wp_get.mpr (wp_bind.mpr ?_))))
  obtain ⟨q, hq, -, -⟩ := hf.locked_wf
  have hitem : ∀ a ∈ q, ∃ ci, w.locked.cache.item a = some ci := by
    intro a ha
    obtain ⟨n, hn⟩ := hq.holds.node_of_mem ha
    exact ⟨n.data, by simp [Cache.item, hn]⟩
  refine wp_mono (within_walkQueue hq.holds.follows_next hitem hq.length.ge) ?_
  rintro _ _ ⟨c, rfl, rfl⟩
  exact wp_unlock_send hf.cache hf.locked_wf

theorem wp_handleRequestStats (hf : Free w sock) :
    wp (handleRequestStats sock) (fun _ t => Returned w t) w := by
  refine wp_bind.mpr (wp_take (by decide) hf.stats (wp_bind.mpr (wp_get.mpr ?_)))
  refine wp_bind.mpr (wp_release hf.stats (wp_bind.mpr (wp_lock hf.cache ?_)))
  refine wp_bind.mpr (wp_get.mpr (wp_bind.mpr (wp_unlock (c := w.locked.cache) hf.cache ?_)))
  refine wp_bind.mpr (wp_mono (wp_sendResponse hf.locked_wf) fun _ t ht => wp_pure.mpr ?_)
  exact ⟨ht.wf, ht.held, ht.others, ht.sys⟩

theorem wp_handleBatchStart (hf : Free w sock) :
    wp (handleBatchStart sock) (fun _ t => Returned w t) w := by
  have hsend : ∀ rc reply, wp (sendResponse sock rc reply) (fun _ t => Returned w t) w :=
    fun _ _ => wp_sendResponse hf.wf
  obtain _ | ⟨_ | _, permissions⟩ := sock
  · exact hsend .ok .goAhead
  · exact hsend .ok .goAhead
  · exact hsend .err .alreadyInBatch

/-- `batch_done` is only reached in a batch. -/
theorem wp_handleBatchDone (hf : Free w sock) (hctx : commandCheckContext sock .dot = true) :
    wp (handleBatchDone sock) (fun _ t => Returned w t) w := by
  have hbatch : ∀ s ∈ sock, s.batchStart = true := by
    rintro s rfl
    by_contra hs
    simp [commandCheckContext, hs, Cmd.context] at hctx
  rw [handleBatchDone, check, if_pos hbatch]
  exact wp_bind.mpr (wp_pure.mpr (wp_sendResponse hf.wf))

/-! ## `UPDATE` -/

/-- A thread that has kept `cache_lock`. -/
structure KeptLock (w t : World) : Prop where
  wf : t.cache.Wf
  held : t.held = Function.update w.held .cache true
  others : t.others = w.others
  sys : t.sys = w.sys

/-- **An `UPDATE` that keeps `cache_lock`**: the file may be written and is not in the tree, it passes
all checks, and when the lock is taken again, the daemon has shut down. -/
structure UpdateLeaks (opts : Opts) (sock : Option Sock) (w : World) (file : Text) : Prop where
  permitted : fileAccess opts sock file = true
  missing : (w.others w.acq w.cache).tree file = none
  regular : (w.sys (w.acq + 1)).stat file = .regular
  access : (w.sys (w.acq + 1)).access file = true
  malloc : (w.sys (w.acq + 1)).malloc = true
  strdup : (w.sys (w.acq + 1)).strdup = true
  shutdown : (w.others (w.acq + 1) (w.others w.acq w.cache)).mode = .shutdown

/-- A program that keeps `cache_lock` exactly if it `leaks`. -/
def Outcome (leaks : Prop) (w t : World) : Prop := (leaks ∧ KeptLock w t) ∨ (¬leaks ∧ Returned w t)

/-- **The file of a new item** is checked without the lock. -/
theorem wp_updateMissed {file : Text} {values : List Text} (hf : Free w sock)
    (hperm : fileAccess opts sock file = true)
    (hmiss : (w.others w.acq w.cache).tree file = none) :
    wp (updateMissed opts sock now file values) (fun _ t => Outcome (UpdateLeaks opts sock w file) w t)
      { w with cache := w.others w.acq w.cache, acq := w.acq + 1 } := by
  have hfree : Free { w with cache := w.others w.acq w.cache, acq := w.acq + 1 } sock :=
    ⟨hf.locked_wf, hf.rely, hf.cache, hf.stats, hf.journal⟩
  have hsend : ∀ reply, ¬UpdateLeaks opts sock w file → wp (sendResponse sock .err reply)
      (fun _ t => Outcome (UpdateLeaks opts sock w file) w t)
      { w with cache := w.others w.acq w.cache, acq := w.acq + 1 } := by
    intro reply hno
    refine wp_mono (wp_sendResponse hfree.wf) fun _ t ht => .inr ⟨hno, ?_⟩
    exact ⟨ht.wf, ht.held, ht.others, ht.sys⟩
  refine wp_bind.mpr (wp_bind.mpr (wp_get.mpr (wp_pure.mpr ?_)))
  dsimp only
  cases hstat : (w.sys (w.acq + 1)).stat file with
  | noEntry => exact hsend _ fun h => absurd (hstat.symm.trans h.regular) (by decide)
  | failed => exact hsend _ fun h => absurd (hstat.symm.trans h.regular) (by decide)
  | other => exact hsend _ fun h => absurd (hstat.symm.trans h.regular) (by decide)
  | regular =>
    simp only [Bool.not_eq_true']
    split_ifs with haccess hmalloc hstrdup
    · exact hsend _ fun h => absurd (haccess.symm.trans h.access) (by decide)
    · exact hsend _ fun h => absurd (hmalloc.symm.trans h.malloc) (by decide)
    · exact hsend _ fun h => absurd (hstrdup.symm.trans h.strdup) (by decide)
    · refine wp_mono (wp_updateNew hfree) ?_
      rintro _ t (⟨hdown, hwf, hheld, hothers, hsys⟩ | ⟨hup, ht⟩)
      · exact .inl ⟨⟨hperm, hmiss, hstat, by simpa using haccess, by simpa using hmalloc,
          by simpa using hstrdup, hdown⟩, hwf, hheld, hothers, hsys⟩
      · exact .inr ⟨fun h => hup h.shutdown, ht.wf, ht.held, ht.others, ht.sys⟩

/-- **`handle_request_update`**, behind the check of its arguments. -/
theorem wp_updateFile {file : Text} {values : List Text} (hf : Free w sock)
    (hperm : fileAccess opts sock file = true) :
    wp (do
        match ← updateKnown opts sock now file values with
        | some status => pure status
        | none => updateMissed opts sock now file values)
      (fun _ t => Outcome (UpdateLeaks opts sock w file) w t) w := by
  refine wp_bind.mpr (wp_mono (wp_updateKnown hf) ?_)
  rintro r t (⟨hknown, hr, ht⟩ | ⟨hmiss, rfl, rfl⟩)
  · obtain ⟨status, rfl⟩ := Option.ne_none_iff_exists'.mp hr
    exact wp_pure.mpr (.inr ⟨fun h => hknown h.missing, ht⟩)
  · exact wp_updateMissed hf hperm hmiss

/-- The `UPDATE` whose arguments these are keeps `cache_lock`. -/
def ArgsLeak (opts : Opts) (sock : Option Sock) (w : World) (buffer : Text) : Prop :=
  ∃ name values, bufferGetField buffer = some (name, values) ∧
    UpdateLeaks opts sock w (getAbsPath opts.baseDir (cstr name))

theorem wp_handleRequestUpdate (buffer : Text) (hf : Free w sock) :
    wp (handleRequestUpdate opts sock now buffer)
      (fun _ t => Outcome (ArgsLeak opts sock w buffer) w t) w := by
  refine wp_withFile hf.wf (fun name values hb => ?_) fun hb t ht => .inr ⟨?_, ht⟩
  · have hiff : ArgsLeak opts sock w buffer ↔
        UpdateLeaks opts sock w (getAbsPath opts.baseDir (cstr name)) := by
      constructor
      · rintro ⟨name', values', hb', h⟩
        obtain ⟨rfl, rfl⟩ := Prod.mk.inj (Option.some.inj (hb.symm.trans hb'))
        exact h
      · exact fun h => ⟨name, values, hb, h⟩
    rw [hiff]
    refine wp_countStats hf.stats (wp_withAccess hf.wf (fun hperm => ?_) fun hperm t ht => ?_)
    · exact wp_updateFile hf hperm
    · exact .inr ⟨fun h => absurd (hperm.symm.trans h.permitted) (by decide), ht⟩
  · rintro ⟨name, values, hb', -⟩
    exact absurd (hb.symm.trans hb') (by simp)

/-! ## `handle_request` -/

/-- **A request that keeps `cache_lock`.** -/
def RequestLeaks (opts : Opts) (sock : Option Sock) (w : World) (buffer : Text) : Prop :=
  ∃ field rest, bufferGetField buffer = some (field, rest) ∧
    findCommand (cstr field) = some .update ∧ socketPermissionCheck sock .update = true ∧
    ArgsLeak opts sock w rest

/-- The handler of a command. -/
theorem wp_handler {cmd : Cmd} (buffer : Text) (hf : Free w sock)
    (hctx : commandCheckContext sock cmd = true) :
    wp (handler opts cmd sock now buffer)
      (fun _ t => Outcome (cmd = .update ∧ ArgsLeak opts sock w buffer) w t) w := by
  have hother : ∀ {p : Thr ℤ}, cmd ≠ .update → wp p (fun _ t => Returned w t) w →
      wp p (fun _ t => Outcome (cmd = .update ∧ ArgsLeak opts sock w buffer) w t) w :=
    fun hne h => wp_mono h fun _ t ht => .inr ⟨fun h => hne h.1, ht⟩
  cases cmd with
  | update =>
    simp only [true_and]
    exact wp_handleRequestUpdate buffer hf
  | wrote => exact hother (by decide) (wp_handleRequestWrote buffer hf)
  | flush => exact hother (by decide) (wp_handleRequestFlush buffer hf)
  | flushall => exact hother (by decide) (wp_handleRequestFlushall hf)
  | pending => exact hother (by decide) (wp_handleRequestPending buffer hf)
  | forget => exact hother (by decide) (wp_handleRequestForget buffer hf)
  | queue => exact hother (by decide) (wp_handleRequestQueue hf)
  | stats => exact hother (by decide) (wp_handleRequestStats hf)
  | help => exact hother (by decide) (wp_sendResponse hf.wf)
  | batch => exact hother (by decide) (wp_handleBatchStart hf)
  | dot => exact hother (by decide) (wp_handleBatchDone hf hctx)
  | quit => exact hother (by decide) (wp_pure.mpr (.refl hf))

/-- The context of `UPDATE` admits it everywhere. -/
theorem update_context (sock : Option Sock) : commandCheckContext sock .update = true := by
  obtain _ | ⟨_ | _, permissions⟩ := sock
  · rfl
  · rfl
  · rfl

/-- **One request**: no fault, and `cache_lock` is kept exactly if the request leaks it. -/
theorem wp_handleRequest {buffer : Text} (hf : Free w sock) (hnul : buffer.getLast? = some nul) :
    wp (handleRequest opts sock now buffer)
      (fun _ t => Outcome (RequestLeaks opts sock w buffer) w t) w := by
  have hsend : ∀ reply, ¬RequestLeaks opts sock w buffer → wp (sendResponse sock .err reply)
      (fun _ t => Outcome (RequestLeaks opts sock w buffer) w t) w :=
    fun reply hno => wp_mono (wp_sendResponse hf.wf) fun _ t ht => .inr ⟨hno, ht⟩
  rw [handleRequest, check, if_pos hnul]
  refine wp_bind.mpr (wp_pure.mpr ?_)
  cases hb : bufferGetField buffer with
  | none =>
    refine wp_pure.mpr (.inr ⟨?_, .refl hf⟩)
    rintro ⟨field, rest, hb', -⟩
    exact absurd (hb.symm.trans hb') (by simp)
  | some r =>
    obtain ⟨field, rest⟩ := r
    have hiff : RequestLeaks opts sock w buffer ↔ findCommand (cstr field) = some .update ∧
        socketPermissionCheck sock .update = true ∧ ArgsLeak opts sock w rest := by
      constructor
      · rintro ⟨field', rest', hb', h⟩
        obtain ⟨rfl, rfl⟩ := Prod.mk.inj (Option.some.inj (hb.symm.trans hb'))
        exact h
      · exact fun h => ⟨field, rest, hb, h⟩
    dsimp only
    cases hcmd : findCommand (cstr field) with
    | none =>
      refine hsend _ fun h => ?_
      exact absurd (hcmd.symm.trans (hiff.mp h).1) (by simp)
    | some cmd =>
      have hupdate : RequestLeaks opts sock w buffer → cmd = .update :=
        fun h => Option.some.inj (hcmd.symm.trans (hiff.mp h).1)
      simp only [Bool.not_eq_true']
      split_ifs with hperm hctx
      · refine hsend _ fun h => ?_
        obtain rfl := hupdate h
        exact absurd (hperm.symm.trans (hiff.mp h).2.1) (by decide)
      · refine hsend _ fun h => ?_
        obtain rfl := hupdate h
        exact absurd (hctx.symm.trans (update_context sock)) (by decide)
      · have hleak : RequestLeaks opts sock w buffer ↔ cmd = .update ∧ ArgsLeak opts sock w rest := by
          constructor
          · exact fun h => ⟨hupdate h, (hiff.mp h).2.2⟩
          · rintro ⟨rfl, h⟩
            exact hiff.mpr ⟨hcmd, by simpa using hperm, h⟩
        rw [hleak]
        exact wp_handler rest hf (by simpa using hctx)

/-! ## A replay that cannot go on -/

/-- If `p` returns at all, it has done nothing. -/
def Idles {α : Type} (p : Thr α) (w : World) : Prop := ∀ r t, p w = .ok (r, t) → t = w

section Idles

variable {α β : Type} {p : Thr α} {f : α → Thr β}

theorem idles_pure {a : α} : Idles (pure a) w :=
  fun _ _ h => (Prod.mk.inj (Except.ok.inj h)).2.symm

theorem Idles.bind (hp : Idles p w) (hf : ∀ a, Idles (f a) w) : Idles (p >>= f) w := by
  intro b u h
  obtain ⟨a, t, ha, hb⟩ := bind_eq_ok.mp h
  obtain rfl := hp a t ha
  exact hf a b u hb

theorem idles_of_within (h : Within w p fun _ c => c = w.cache) : Idles p w := by
  intro r t hr
  obtain ⟨c, rfl, rfl⟩ := (wp_of_eq hr).mp h
  rfl

theorem idles_ask : Idles ask w := idles_of_within (within_ask (within_pure rfl))

theorem idles_check {c : Prop} [Decidable c] : Idles (check c) w := by
  intro r t h
  rw [check] at h
  split_ifs at h
  · exact idles_pure r t h
  · exact absurd ⟨r, t, h, trivial⟩ (wp_throw (Q := fun _ _ => True))

/-- A thread that holds `cache_lock` never gets it again. -/
theorem idles_lock {f : Unit → Thr β} (hc : w.held .cache = true) :
    Idles (lock .cache >>= f) w := by
  intro b u h
  obtain ⟨r, t, hr, -⟩ := bind_eq_ok.mp h
  have hwp : wp (lock .cache) (fun _ _ => True) w := ⟨r, t, hr, trivial⟩
  have hdead := wp_get.mp (wp_bind.mp hwp)
  rw [if_pos hc] at hdead
  exact absurd hdead wp_throw

theorem idles_sendResponse {rc : Resp} {reply : Reply} : Idles (sendResponse none rc reply) w :=
  idles_ask.bind fun _ => idles_pure

end Idles

/-- The commands of the journal take `cache_lock`, unless their arguments are wrong. -/
theorem handler_idles {cmd : Cmd} {buffer : Text} (hc : w.held .cache = true)
    (hs : w.held .stats = false) (hctx : commandCheckContext none cmd = true) :
    Idles (handler opts cmd none now buffer) w := by
  cases cmd with
  | update =>
    show Idles (handleRequestUpdate opts none now buffer) w
    rw [handleRequestUpdate, withFile]
    split
    · exact idles_sendResponse
    · refine (idles_of_within (within_countStats hs)).bind fun _ => ?_
      rw [withAccess, fileAccess, if_pos rfl, updateKnown, bind_assoc]
      exact idles_lock hc
  | wrote => exact idles_lock hc
  | forget =>
    show Idles (handleRequestForget opts none buffer) w
    rw [handleRequestForget, withFile]
    split
    · exact idles_sendResponse
    · rw [withAccess, fileAccess, if_pos rfl, forgetSection, bind_assoc]
      exact idles_lock hc
  | flush | flushall | pending | queue | stats | help | batch | dot | quit =>
    exact absurd hctx (by decide)

theorem handleRequest_idles {buffer : Text} (hc : w.held .cache = true)
    (hs : w.held .stats = false) : Idles (handleRequest opts none now buffer) w := by
  refine idles_check.bind fun _ => ?_
  split
  · exact idles_pure
  · split
    · exact idles_sendResponse
    · split_ifs with hperm hctx
      · exact idles_sendResponse
      · exact idles_sendResponse
      · exact handler_idles hc hs (by simpa using hctx)

theorem replayEntries_idles (hc : w.held .cache = true) (hs : w.held .stats = false)
    (es : List Entry) : Idles (replayEntries opts now es) w := by
  induction es with
  | nil => exact idles_pure
  | cons e es ih =>
    cases e with
    | malformed => exact ih
    | request buffer =>
      exact (handleRequest_idles hc hs).bind fun _ => ih.bind fun _ => idles_pure

theorem journalReplay_idles (hc : w.held .cache = true) (hs : w.held .stats = false)
    (file : Text) : Idles (journalReplay opts file) w := by
  refine idles_ask.bind fun sys => ?_
  split
  · exact idles_pure
  · exact (replayEntries_idles hc hs _).bind fun _ => idles_pure

theorem replayFiles_idles (hc : w.held .cache = true) (hs : w.held .stats = false)
    (files : List Text) : Idles (replayFiles opts files) w := by
  induction files with
  | nil => exact idles_pure
  | cons f fs ih => exact (journalReplay_idles hc hs f).bind fun _ => ih.bind fun _ => idles_pure

/-! ## `journal_init` -/

/-- None of these requests of a journal keeps `cache_lock`, each in the state the ones before it
leave. -/
def EntriesClean (opts : Opts) (now : ℤ) : List Entry → World → Prop
  | [], _ => True
  | .malformed :: es, w => EntriesClean opts now es w
  | .request buffer :: es, w => ¬RequestLeaks opts none w buffer ∧
    ∀ r t, handleRequest opts none now buffer w = .ok (r, t) → EntriesClean opts now es t

/-- None of the requests of a journal file keeps `cache_lock`. -/
def FileClean (opts : Opts) (file : Text) (w : World) : Prop :=
  ∀ text, (w.sys w.acq).journalFile file = some text →
    EntriesClean opts (w.sys w.acq).time (allEntries text) w

/-- None of the requests of these journal files keeps `cache_lock`. -/
def FilesClean (opts : Opts) : List Text → World → Prop
  | [], _ => True
  | f :: fs, w => FileClean opts f w ∧
    ∀ n t, journalReplay opts f w = .ok (n, t) → FilesClean opts fs t

/-- The thread has got `journal_lock`. -/
def World.journaling (w : World) : World :=
  { w with held := Function.update w.held .journal true }

/-- **A start that releases its locks**: if there is a journal directory, memory is allocated, the
directory is opened and no request of its journal files keeps `cache_lock`. -/
def InitClean (opts : Opts) (w : World) : Prop :=
  ∀ dir, opts.journalDir = some dir → (w.sys w.acq).calloc = true ∧
    ∃ names, (w.sys w.acq).opendir = some names ∧
      FilesClean opts (journalFiles dir (w.sys w.acq) names) w.journaling

/-- A replay gives back what it has taken if it is clean; otherwise it returns, if at all, with
`cache_lock`. -/
structure Ends {α : Type} (clean : Prop) (p : Thr α) (w : World) : Prop where
  returns : clean → wp p (fun _ t => Returned w t) w
  keeps : ¬clean → ∀ r t, p w = .ok (r, t) → KeptLock w t

section Ends

variable {α β : Type} {p : Thr α} {clean : Prop}

theorem Ends.map (h : Ends clean p w) (g : α → β) : Ends clean (p >>= fun a => pure (g a)) w := by
  constructor
  · exact fun hclean => wp_bind.mpr (wp_mono (h.returns hclean) fun _ _ ht => wp_pure.mpr ht)
  · intro hdirty b u hu
    obtain ⟨a, t, ha, hb⟩ := bind_eq_ok.mp hu
    obtain rfl := idles_pure b u hb
    exact h.keeps hdirty a u ha

/-- **One part of a replay after the other.** -/
theorem Ends.bind {f : α → Thr β} {rest : World → Prop} (h : Ends clean p w)
    (hf : ∀ a t, Returned w t → Ends (rest t) (f a) t) (hidle : ∀ a t, KeptLock w t → Idles (f a) t) :
    Ends (clean ∧ ∀ a t, p w = .ok (a, t) → rest t) (p >>= f) w := by
  constructor
  · rintro ⟨hclean, hrest⟩
    obtain ⟨a, t, ha, ht⟩ := h.returns hclean
    have hend := (hf a t ht).returns (hrest a t ha)
    exact wp_bind.mpr ⟨a, t, ha, wp_mono hend fun _ u hu => ht.trans hu⟩
  · intro hdirty b u hu
    obtain ⟨a, t, ha, hb⟩ := bind_eq_ok.mp hu
    by_cases hclean : clean
    · have ht : Returned w t := (wp_of_eq ha).mp (h.returns hclean)
      have hrest : ¬rest t := by
        intro hrest
        refine hdirty ⟨hclean, fun a' t' ha' => ?_⟩
        obtain ⟨-, rfl⟩ := Prod.mk.inj (Except.ok.inj (ha.symm.trans ha'))
        exact hrest
      have hu := (hf a t ht).keeps hrest b u hb
      exact ⟨hu.wf, by rw [hu.held, ht.held], hu.others.trans ht.others, hu.sys.trans ht.sys⟩
    · have ht := h.keeps hclean a t ha
      obtain rfl := hidle a t ht b u hb
      exact ht

end Ends

theorem KeptLock.cache (h : KeptLock w t) : t.held .cache = true := by
  rw [h.held, Function.update_self]

theorem KeptLock.stats (h : KeptLock w t) (hf : Free w sock) : t.held .stats = false := by
  rw [h.held]
  simpa using hf.stats

theorem handleRequest_ends {buffer : Text} (hf : Free w none) (hnul : buffer.getLast? = some nul) :
    Ends (¬RequestLeaks opts none w buffer) (handleRequest opts none now buffer) w := by
  have hreq : wp (handleRequest opts none now buffer)
      (fun _ t => Outcome (RequestLeaks opts none w buffer) w t) w := wp_handleRequest hf hnul
  constructor
  · intro hno
    refine wp_mono hreq ?_
    rintro _ t (⟨hleak, -⟩ | ⟨-, ht⟩)
    · exact absurd hleak hno
    · exact ht
  · intro hleak r t hr
    obtain ⟨-, ht⟩ | ⟨hno, -⟩ := (wp_of_eq hr).mp hreq
    · exact ht
    · exact absurd hno hleak

theorem replayEntries_ends {es : List Entry} (hf : Free w none)
    (hnul : ∀ buffer, .request buffer ∈ es → buffer.getLast? = some nul) :
    Ends (EntriesClean opts now es w) (replayEntries opts now es) w := by
  induction es generalizing w with
  | nil => exact ⟨fun _ => wp_pure.mpr (.refl hf), fun h => absurd trivial h⟩
  | cons e es ih =>
    have hrest : ∀ buffer, .request buffer ∈ es → buffer.getLast? = some nul :=
      fun buffer hb => hnul buffer (List.mem_cons_of_mem e hb)
    cases e with
    | malformed => exact ih hf hrest
    | request buffer =>
      refine (handleRequest_ends hf (hnul buffer List.mem_cons_self)).bind ?_ ?_
      · exact fun status t ht => (ih (ht.free hf) hrest).map _
      · exact fun status t ht =>
          (replayEntries_idles ht.cache (ht.stats hf) es).bind fun _ => idles_pure

/-- The requests of a journal end with a NUL. -/
theorem journalEntries_nul {fuel : ℕ} {file buffer : Text}
    (h : .request buffer ∈ journalEntries fuel file) : buffer.getLast? = some nul := by
  induction fuel generalizing file with
  | zero => exact absurd h List.not_mem_nil
  | succ fuel ih =>
    rw [journalEntries] at h
    split at h
    · exact absurd h List.not_mem_nil
    · dsimp only at h
      split_ifs at h
      · exact ih h
      · obtain hhead | htail := List.mem_cons.mp h
        · obtain rfl := Entry.request.inj hhead
          simp
        · exact ih htail
      · obtain hhead | htail := List.mem_cons.mp h
        · exact absurd hhead (by simp)
        · exact ih htail

theorem journalReplay_ends {file : Text} (hf : Free w none) :
    Ends (FileClean opts file w) (journalReplay opts file) w := by
  have hask : ∀ {f : Sys → Thr ℕ}, (ask >>= f) w = f (w.sys w.acq) w := rfl
  cases htext : (w.sys w.acq).journalFile file with
  | none =>
    have hrun : journalReplay opts file w = .ok (0, w) := by
      rw [journalReplay, hask, htext]
      rfl
    refine ⟨fun _ => ⟨0, w, hrun, .refl hf⟩, fun hdirty => absurd (fun text ht => ?_) hdirty⟩
    exact absurd (htext.symm.trans ht) (by simp)
  | some text =>
    have hclean : FileClean opts file w ↔
        EntriesClean opts (w.sys w.acq).time (allEntries text) w := by
      rw [FileClean, htext]
      simp
    have hentries : Ends (EntriesClean opts (w.sys w.acq).time (allEntries text) w)
        (replayEntries opts (w.sys w.acq).time (allEntries text)) w :=
      replayEntries_ends hf fun _ h => journalEntries_nul h
    have hends := hentries.map fun n => if 0 < n then 1 else 0
    have hrun : journalReplay opts file w = (replayEntries opts (w.sys w.acq).time (allEntries text)
        >>= fun n => pure (if 0 < n then 1 else 0)) w := by
      rw [journalReplay, hask, htext]
    rw [hclean]
    exact ⟨fun h => by rw [wp, hrun]; exact hends.returns h,
      fun h r t hr => hends.keeps h r t (hrun.symm.trans hr)⟩

theorem replayFiles_ends {files : List Text} (hf : Free w none) :
    Ends (FilesClean opts files w) (replayFiles opts files) w := by
  induction files generalizing w with
  | nil => exact ⟨fun _ => wp_pure.mpr (.refl hf), fun h => absurd trivial h⟩
  | cons f fs ih =>
    refine (journalReplay_ends hf).bind ?_ ?_
    · exact fun n t ht => (ih (ht.free hf)).map _
    · exact fun n t ht => (replayFiles_idles ht.cache (ht.stats hf) fs).bind fun _ => idles_pure

theorem within_flushAfterCrash {n : ℕ} (hs : w.held .stats = false) (hwf : w.cache.Wf) :
    Within w (flushAfterCrash opts n) fun _ c => c.Wf := by
  refine within_ask ?_
  split_ifs
  · exact wf_flushOldItems opts (-1) hs hwf
  · exact within_pure hwf

/-- `p` returns and holds no lock then. -/
def Releases {α : Type} (p : Thr α) (w : World) : Prop := wp p (fun _ t => ∀ l, t.held l = false) w

theorem journaling_free (hf : Free w none) : Free w.journaling none := by
  refine ⟨hf.wf, hf.rely, ?_, ?_, fun h => absurd h (by decide)⟩
  · simpa [World.journaling] using hf.cache
  · simpa [World.journaling] using hf.stats

/-- What `journal_init` does with the journal files it has found. -/
theorem replayAll_releases_iff {files : List Text} (hf : Free w none)
    (hheld : ∀ l, w.held l = false) :
    Releases (do
        let hadJournal ← replayFiles opts files
        flushAfterCrash opts hadJournal
        unlock .journal) w.journaling ↔
      FilesClean opts files w.journaling := by
  have hfree := journaling_free hf
  constructor
  · rintro ⟨r, u, hu, hall⟩
    by_contra hdirty
    obtain ⟨n, t, ht, hu⟩ := bind_eq_ok.mp hu
    have hkept := (replayFiles_ends hfree).keeps hdirty n t ht
    -- the rest does not touch `cache_lock`
    have hflush : Within t (flushAfterCrash opts n) fun _ c => c.Wf :=
      within_flushAfterCrash (hkept.stats hfree) hkept.wf
    obtain ⟨_, _, hfl, c, rfl, -⟩ := hflush
    obtain ⟨_, v, hv, hu⟩ := bind_eq_ok.mp hu
    obtain ⟨-, rfl⟩ := Prod.mk.inj (Except.ok.inj (hfl.symm.trans hv))
    have hjournal : t.held .journal = true := by
      rw [hkept.held]
      simp [World.journaling]
    have hunlock : wp (unlock .journal) (fun _ u => u.held .cache = true) { t with cache := c } := by
      refine wp_bind.mpr (wp_get.mpr ?_)
      simp only [hjournal, if_true]
      exact wp_set.mpr (by simpa using hkept.cache)
    exact absurd ((wp_of_eq hu).mp hunlock) (by simp [hall .cache])
  · intro hclean
    refine wp_bind.mpr (wp_mono ((replayFiles_ends hfree).returns hclean) fun n t ht => ?_)
    have hstats : t.held .stats = false := by rw [ht.held]; exact hfree.stats
    refine wp_bind.mpr (wp_mono (within_flushAfterCrash hstats ht.wf) ?_)
    rintro _ _ ⟨c, rfl, -⟩
    have hback : t = { t with held := Function.update w.held .journal true } := by
      rw [show Function.update w.held .journal true = t.held from ht.held.symm]
    rw [hback]
    exact wp_release (w := { t with cache := c, held := w.held }) (hheld .journal) hheld

/-- **`journal_init`** releases its locks exactly at a clean start. -/
theorem journalInit_releases_iff (hf : Free w none) (hheld : ∀ l, w.held l = false) :
    Releases (journalInit opts) w ↔ InitClean opts w := by
  rw [journalInit, InitClean]
  cases hdir : opts.journalDir with
  | none => exact ⟨fun _ dir hdir' => absurd hdir' (by simp), fun _ => wp_pure.mpr hheld⟩
  | some dir =>
    have hlock : lock .journal w = .ok ((), w.journaling) := by
      obtain ⟨_, _, hr, rfl⟩ := wp_take (w := w) (Q := fun _ t => t = w.journaling) (by decide)
        (hheld .journal) rfl
      exact hr
    have hrest : ∀ f : Unit → Thr Unit,
        Releases (lock .journal >>= f) w ↔ Releases (f ()) w.journaling :=
      fun f => wp_bind.trans (wp_of_eq hlock)
    have hask : ∀ f : Sys → Thr Unit,
        Releases (ask >>= f) w.journaling ↔ Releases (f (w.sys w.acq)) w.journaling :=
      fun f => wp_bind.trans (wp_bind.trans (wp_get.trans wp_pure))
    have hearly : ¬Releases (pure ()) w.journaling :=
      fun h => absurd (wp_pure.mp h .journal) (by simp [World.journaling])
    simp only [hrest, hask, Option.some.injEq, forall_eq', Bool.not_eq_true']
    cases hcalloc : (w.sys w.acq).calloc with
    | false => simpa using hearly
    | true =>
      cases hopen : (w.sys w.acq).opendir with
      | none => simpa using hearly
      | some names => simpa using replayAll_releases_iff hf hheld

/-! ## Every request and every start -/

/-- The cache after sections of other threads. -/
def afterSections (opts : Opts) (ss : List (Section × Sys)) (c : Cache) : Cache :=
  match runSections opts c ss with
  | .ok c' => c'
  | .error _ => c

theorem afterSections_wf (opts : Opts) (ss : List (Section × Sys)) {c : Cache} (h : c.Wf) :
    (afterSections opts ss c).Wf := by
  obtain ⟨c', hrun, hwf⟩ := runSections_wf opts h ss
  rw [afterSections, hrun]
  exact hwf

/-- A thread that holds no lock: the cache is what sections have made of it since the start, and
`others n` are the sections of other threads before it gets `cache_lock` for the `n`-th time. -/
def World.among (opts : Opts) (ss : List (Section × Sys)) (others : ℕ → List (Section × Sys))
    (sys : ℕ → Sys) : World :=
  ⟨afterSections opts ss .init, fun _ => false, fun n => afterSections opts (others n), 0, sys, []⟩

theorem among_free (opts : Opts) (ss : List (Section × Sys)) (others : ℕ → List (Section × Sys))
    (sys : ℕ → Sys) (sock : Option Sock) : Free (.among opts ss others sys) sock :=
  ⟨afterSections_wf opts ss init_wf, fun n _ hc => afterSections_wf opts (others n) hc, rfl, rfl,
    fun _ => rfl⟩

/-- **The locks**: in every state that any sections reach, and whatever other threads do in between,
`handle_request` releases all locks exactly if the request is no `UPDATE` of a new file that finds
the daemon shut down, and `journal_init` exactly at a clean start. -/
theorem locks_released_iff (opts : Opts) (ss : List (Section × Sys))
    (others : ℕ → List (Section × Sys)) (sys : ℕ → Sys) :
    (∀ (sock : Option Sock) (now : ℤ) (buffer : Text), buffer.getLast? = some nul →
      (Releases (handleRequest opts sock now buffer) (.among opts ss others sys) ↔
        ¬RequestLeaks opts sock (.among opts ss others sys) buffer)) ∧
    (Releases (journalInit opts) (.among opts ss others sys) ↔
      InitClean opts (.among opts ss others sys)) := by
  constructor
  · intro sock now buffer hnul
    have hreq : wp (handleRequest opts sock now buffer) (fun _ t => Outcome
        (RequestLeaks opts sock (.among opts ss others sys) buffer) (.among opts ss others sys) t)
        (.among opts ss others sys) := wp_handleRequest (among_free opts ss others sys sock) hnul
    constructor
    · rintro ⟨r, t, hr, hall⟩ hleak
      obtain ⟨-, ht⟩ | ⟨hno, -⟩ := (wp_of_eq hr).mp hreq
      · exact absurd ht.cache (by simp [hall .cache])
      · exact hno hleak
    · intro hno
      refine wp_mono hreq ?_
      rintro r t (⟨hleak, -⟩ | ⟨-, ht⟩) l
      · exact absurd hleak hno
      · rw [ht.held]
        rfl
  · exact journalInit_releases_iff (among_free opts ss others sys none) fun _ => rfl

/-- A system where everything succeeds. -/
def kindSys : Sys where
  stat _ := .regular
  access _ := true
  malloc := true
  strdup := true
  addStrdup _ := true
  addPtr _ := true
  random := 0
  time := 0
  journalFh := false
  fprintf := true
  send := true
  calloc := true
  opendir := some []
  journalFile _ := none
  newFile := true

/-- No base directory, and a journal. -/
def journalOpts : Opts := 
  ⟨⟨1, 300, 3600, 0, false, true, Nat.one_pos⟩, none, false, some "/j".toList⟩

/-- A client that may send all commands. -/
def client : Option Sock := some ⟨false, 4095⟩

/-- A `FLUSHALL`, and a start without journal files. -/
theorem flushall_releases :
    Releases (handleRequest journalOpts client 0 ("FLUSHALL".toList ++ [nul]))
        (.among journalOpts [] (fun _ => []) fun _ => kindSys) ∧
      Releases (journalInit journalOpts) (.among journalOpts [] (fun _ => []) fun _ => kindSys) := by
  have h := locks_released_iff journalOpts [] (fun _ => []) fun _ => kindSys
  refine ⟨(h.1 client 0 ("FLUSHALL".toList ++ [nul]) (by decide +kernel)).mpr ?_, h.2.mpr ?_⟩
  · have hfield : bufferGetField ("FLUSHALL".toList ++ [nul]) = some ("FLUSHALL".toList, []) := by
      decide +kernel
    rintro ⟨field, rest, hb, hcmd, -⟩
    obtain ⟨rfl, rfl⟩ := Prod.mk.inj (Option.some.inj (hfield.symm.trans hb))
    exact absurd hcmd (by decide +kernel)
  · exact fun dir _ => ⟨rfl, [], rfl, by simp [journalFiles, FilesClean]⟩

/-- What a thread holds when it returns, it has not released. -/
theorem not_releases {α : Type} {p : Thr α} {l : Lock}
    (h : (p w).map (fun r => r.2.held l) = .ok true) : ¬Releases p w := by
  rintro ⟨r, t, hr, hall⟩
  rw [hr] at h
  exact absurd ((Except.ok.inj h).symm.trans (hall l)) (by decide)

/-- **An `UPDATE` of a new file while the daemon shuts down** returns with `cache_lock`, and
`journal_init` with `journal_lock` when the directory cannot be opened. -/
theorem update_keeps_cache_lock :
    ¬Releases (handleRequest journalOpts client 0 ("UPDATE a 1:1".toList ++ [nul]))
        (.among journalOpts [] (fun n => if n = 1 then [(.setMode .shutdown, kindSys)] else [])
          fun _ => kindSys) ∧
      ¬Releases (journalInit journalOpts)
        (.among journalOpts [] (fun _ => []) fun _ => { kindSys with opendir := none }) := by
  constructor
  · exact not_releases (l := .cache) (by decide +kernel)
  · exact not_releases (l := .journal) (by decide +kernel)

end Rrdtool.Daemon

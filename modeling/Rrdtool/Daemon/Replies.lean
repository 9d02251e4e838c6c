import Rrdtool.Daemon.Locks
import Rrdtool.Daemon.Response

/-!
# What the handlers reply

No request has a newline in it, so no text that comes from a request has one: the names and the
values in the cache, and what a handler says about them. Outside of a batch every handler replies
exactly once, unless the connection is closed.

* `Silent` — programs that reply nothing; the rules take a program apart;
* `answers_handleRequest` — `handle_request`.
-/

namespace Rrdtool.Daemon

open Wp

variable {α β : Type} {opts : Opts} {sock : Option Sock} {now : ℤ} {Q : α → Prop} {R : β → Prop}

/-! ## Worlds -/

/-- No text of an item has a newline. -/
structure CacheItem.Plain (ci : CacheItem) : Prop where
  file : Daemon.Plain ci.file
  values : ∀ v ∈ ci.values, Daemon.Plain v

/-- No text in the cache has a newline. -/
def Cache.Plain (c : Cache) : Prop := c.mem.AllData CacheItem.Plain

/-- A world without newlines, with these replies. -/
structure Steady (w : World) (replies : List Reply) : Prop where
  cache : w.cache.Plain
  others : ∀ n c, c.Plain → (w.others n c).Plain
  replies : w.replies = replies

/-- A program that replies nothing, and returns what meets `Q`. -/
def Silent (p : Thr α) (Q : α → Prop) : Prop :=
  ∀ replies w, Steady w replies → wlp p (fun a t => Steady t replies ∧ Q a) w

/-! ## Programs that reply nothing -/

theorem Silent.mono {Q' : α → Prop} {p : Thr α} (h : Silent p Q) (hQ : ∀ a, Q a → Q' a) :
    Silent p Q' :=
  fun rs w hw => wlp_mono (h rs w hw) fun a _ ht => ⟨ht.1, hQ a ht.2⟩

theorem silent_pure {a : α} (h : Q a) : Silent (pure a) Q :=
  fun _ _ hw => wlp_pure ⟨hw, h⟩

theorem Silent.bind {p : Thr α} {f : α → Thr β} (hp : Silent p Q) (hf : ∀ a, Q a → Silent (f a) R) :
    Silent (p >>= f) R :=
  fun rs w hw => wlp_bind (wlp_mono (hp rs w hw) fun a t ht => hf a ht.2 rs t ht.1)

theorem silent_throw {e : Fault} : Silent (throw e : Thr α) Q := fun _ _ _ => wlp_throw

theorem silent_get : Silent (get : Thr World) fun w => w.cache.Plain :=
  fun _ _ hw => wlp_get ⟨hw, hw.cache⟩

/-- A write to the cache that brings no newline. -/
theorem Steady.onCache {w : World} {rs : List Reply} (hw : Steady w rs) {c : Cache} (hc : c.Plain) :
    Steady { w with cache := c } rs :=
  ⟨hc, hw.others, hw.replies⟩

theorem silent_lock (l : Lock) : Silent (lock l) fun _ => True := by
  intro rs w hw
  refine wlp_bind (wlp_get ?_)
  split_ifs
  · exact wlp_throw
  · cases l with
    | cache =>
      exact wlp_set ⟨⟨hw.others _ _ hw.cache, hw.others, hw.replies⟩, trivial⟩
    | stats => exact wlp_set ⟨⟨hw.cache, hw.others, hw.replies⟩, trivial⟩
    | journal => exact wlp_set ⟨⟨hw.cache, hw.others, hw.replies⟩, trivial⟩

theorem silent_unlock (l : Lock) : Silent (unlock l) fun _ => True := by
  intro rs w hw
  refine wlp_bind (wlp_get ?_)
  split_ifs
  · exact wlp_set ⟨⟨hw.cache, hw.others, hw.replies⟩, trivial⟩
  · exact wlp_throw

theorem silent_check (c : Prop) [Decidable c] : Silent (check c) fun _ => True := by
  rw [check]
  split_ifs
  · exact silent_pure trivial
  · exact silent_throw

theorem silent_ask : Silent ask fun _ => True :=
  silent_get.bind fun _ _ => silent_pure trivial

theorem silent_item (a : ℕ) : Silent (item a) CacheItem.Plain := by
  refine silent_get.bind fun w hw => ?_
  split
  · exact silent_throw
  · exact silent_pure (hw a _ ‹_›)

theorem silent_link {f : Dll.Mem ℕ CacheItem → Option (Dll.Mem ℕ CacheItem)}
    (hf : ∀ m m', m.AllData CacheItem.Plain → f m = some m' → m'.AllData CacheItem.Plain) :
    Silent (link f) fun _ => True := by
  intro rs w hw
  refine wlp_bind (wlp_get ?_)
  cases h : f w.cache.mem with
  | none => exact wlp_throw
  | some m =>
    have hm : m.AllData CacheItem.Plain := hf _ _ hw.cache h
    exact wlp_set ⟨hw.onCache hm, trivial⟩

theorem silent_modifyData (a : ℕ) {f : CacheItem → CacheItem} (hf : ∀ ci, ci.Plain → (f ci).Plain) :
    Silent (link (·.modifyData a f)) fun _ => True :=
  silent_link fun _ _ hm h => hm.modifyData h hf

theorem silent_onCache {f : Cache → Cache} (hf : ∀ c, c.Plain → (f c).Plain) :
    Silent (onCache f) fun _ => True :=
  fun _ _ hw => wlp_modify ⟨hw.onCache (hf _ hw.cache), trivial⟩

theorem silent_treeLookup (file : Text) : Silent (treeLookup file) fun _ => True :=
  silent_get.bind fun _ _ => silent_pure trivial

theorem silent_underStats {p : Thr Unit} (hp : Silent p fun _ => True) :
    Silent (underStats p) fun _ => True :=
  (silent_lock .stats).bind fun _ _ => hp.bind fun _ _ => silent_unlock .stats

/-! ## The queue -/

theorem silent_removeFromQueue (a : ℕ) : Silent (removeFromQueue a) fun _ => True := by
  refine (silent_item a).bind fun ci _ => ?_
  split_ifs
  · refine (silent_link fun _ _ hm h => hm.unlink h).bind fun _ _ => ?_
    refine (silent_modifyData a (f := fun ci => { ci with inQueue := false })
      fun _ h => ⟨h.file, h.values⟩).bind fun _ _ => ?_
    refine silent_underStats (silent_get.bind fun _ _ => ?_)
    exact (silent_check _).bind fun _ _ => silent_onCache fun _ h => h
  · exact silent_pure trivial

theorem silent_freeCacheItem (a : ℕ) : Silent (freeCacheItem a) fun _ => True := by
  refine (silent_removeFromQueue a).bind fun _ _ => silent_onCache fun c h b n hn => ?_
  have hn : Function.update c.mem.node a none b = some n := hn
  by_cases hb : b = a
  · subst hb
    rw [Function.update_self] at hn
    cases hn
  · rw [Function.update_of_ne hb] at hn
    exact h b n hn

theorem wipe_plain (when_ : ℤ) (random : ℕ) {ci : CacheItem} (h : ci.Plain) :
    (wipe opts when_ random ci).Plain :=
  ⟨h.file, fun _ hv => absurd hv List.not_mem_nil⟩

theorem silent_markQueued (a : ℕ) : Silent (markQueued a) fun _ => True := by
  refine (silent_modifyData a (f := fun ci => { ci with inQueue := true })
    fun _ h => ⟨h.file, h.values⟩).bind fun _ _ => ?_
  exact silent_underStats (silent_onCache fun _ h => h)

theorem silent_enqueueCacheItem (a : ℕ) (side : Side) :
    Silent (enqueueCacheItem a side) fun _ => True := by
  refine (silent_item a).bind fun ci _ => ?_
  by_cases hv : ci.values = []
  · rw [if_pos hv]
    exact silent_pure trivial
  · rw [if_neg hv]
    cases side with
    | head =>
      refine silent_get.bind fun w _ => ?_
      split_ifs
      · exact silent_pure trivial
      · refine (silent_removeFromQueue a).bind fun _ _ => ?_
        exact (silent_link fun _ _ hm h => hm.pushFront h).bind fun _ _ => silent_markQueued a
    | tail =>
      change Silent (if _ then _ else _) _
      split_ifs
      · exact silent_pure trivial
      · refine silent_get.bind fun w _ => ?_
        refine (silent_check _).bind fun _ _ => (silent_check _).bind fun _ _ => ?_
        exact (silent_link fun _ _ hm h => hm.pushBack h).bind fun _ _ => silent_markQueued a

theorem silent_treeRemove (file : Text) : Silent (treeRemove file) fun _ => True := by
  refine (silent_treeLookup file).bind fun r _ => ?_
  cases r with
  | none => exact silent_pure trivial
  | some a =>
    refine (silent_onCache (f := fun c =>
      { c with tree := Function.update c.tree file none, keys := c.keys.erase file })
      fun _ h => h).bind fun _ _ => ?_
    exact (silent_freeCacheItem a).bind fun _ _ => silent_pure trivial

theorem silent_treeForeach (now absTimeout : ℤ) (ks keys : List Text) :
    Silent (treeForeach opts now absTimeout ks keys) fun _ => True := by
  induction ks generalizing keys with
  | nil => exact silent_pure trivial
  | cons k ks ih =>
    refine Silent.bind (Q := fun _ => True) ?_ fun keys _ => ih keys
    refine (silent_treeLookup k).bind fun r _ => ?_
    cases r with
    | none => exact silent_pure trivial
    | some a =>
      refine (silent_item a).bind fun ci _ => silent_get.bind fun w _ => ?_
      split_ifs
      · exact silent_pure trivial
      · exact (silent_enqueueCacheItem a .tail).bind fun _ _ => silent_pure trivial
      · refine (silent_check _).bind fun _ _ => silent_ask.bind fun _ _ => ?_
        exact silent_pure trivial
      · exact silent_pure trivial

theorem silent_removeKeys (ks : List Text) : Silent (removeKeys ks) fun _ => True := by
  induction ks with
  | nil => exact silent_pure trivial
  | cons k ks ih =>
    exact (silent_treeRemove k).bind fun _ _ => (silent_check _).bind fun _ _ => ih

theorem silent_flushSection (maxAge : ℤ) : Silent (flushSection opts maxAge) fun _ => True := by
  refine (silent_lock .cache).bind fun _ _ => Silent.bind (Q := fun _ => True) ?_
    fun _ _ => silent_unlock .cache
  refine silent_ask.bind fun sys _ => silent_get.bind fun w _ => ?_
  exact (silent_treeForeach _ _ _ _).bind fun keys _ => silent_removeKeys keys

/-! ## Requests -/

/-- No byte of a request is a newline. -/
def OneLine (buffer : Text) : Prop := '\n' ∉ buffer

theorem oneLine_field {buffer field rest : Text} (hb : OneLine buffer)
    (h : bufferGetField buffer = some (field, rest)) : OneLine field ∧ OneLine rest := by
  fun_induction bufferGetField buffer generalizing field rest with
  | case1 => cases h
  | case2 c cs hc =>
    obtain ⟨rfl, rfl⟩ := Prod.mk.inj (Option.some.inj h)
    exact ⟨List.not_mem_nil, fun hmem => hb (List.mem_cons_of_mem c hmem)⟩
  | case3 => cases h
  | case4 =>
    rename_i d ds _ ih
    obtain ⟨⟨field', rest'⟩, hr, heq⟩ := Option.map_eq_some_iff.mp h
    obtain ⟨rfl, rfl⟩ := Prod.mk.inj heq
    have hds : OneLine ds := fun hmem => hb (List.mem_cons_of_mem _ (List.mem_cons_of_mem d hmem))
    obtain ⟨hfield, hrest⟩ := ih hds hr
    refine ⟨fun hmem => ?_, hrest⟩
    rcases List.mem_cons.mp hmem with rfl | hmem
    · exact hb (List.mem_cons_of_mem _ List.mem_cons_self)
    · exact hfield hmem
  | case5 c cs hc he ih =>
    obtain ⟨⟨field', rest'⟩, hr, heq⟩ := Option.map_eq_some_iff.mp h
    obtain ⟨rfl, rfl⟩ := Prod.mk.inj heq
    obtain ⟨hfield, hrest⟩ := ih (fun hmem => hb (List.mem_cons_of_mem c hmem)) hr
    refine ⟨fun hmem => ?_, hrest⟩
    rcases List.mem_cons.mp hmem with rfl | hmem
    · exact hb List.mem_cons_self
    · exact hfield hmem

/-- A string in a request. -/
theorem OneLine.plain {t : Text} (h : OneLine t) : Plain (cstr t) :=
  ⟨fun hmem => h ((List.takeWhile_subset _) hmem), fun hmem => by
    have hne := List.mem_takeWhile_imp hmem
    simp at hne⟩

theorem plain_valueFields {fuel : ℕ} {buffer : Text} (hb : OneLine buffer) :
    ∀ v ∈ valueFields fuel buffer, Plain v := by
  induction fuel generalizing buffer with
  | zero => exact fun _ hv => absurd hv List.not_mem_nil
  | succ fuel ih =>
    intro v hv
    rw [valueFields] at hv
    split at hv
    · exact absurd hv List.not_mem_nil
    · obtain ⟨hfield, hrest⟩ := oneLine_field hb ‹_›
      rcases List.mem_cons.mp hv with rfl | hv
      · exact hfield.plain
      · exact ih hrest v hv

theorem plain_getAbsPath {baseDir : Option Text} (hdir : ∀ dir ∈ baseDir, Plain dir) {file : Text}
    (h : Plain file) : Plain (getAbsPath baseDir file) := by
  cases baseDir with
  | none => exact h
  | some dir =>
    rw [getAbsPath]
    split_ifs
    · exact h
    · have hslash : Plain ['/'] := ⟨by decide, by decide⟩
      exact ((hdir dir rfl).append (hslash.append h)).subset (List.take_subset _ _)

/-! ## Replies -/

/-- A handler has replied at most once, and exactly once if the connection goes on outside of a
batch. -/
def Replied (sock : Option Sock) (replies : List Reply) (status : ℤ) (t : World) : Prop :=
  ∃ new : Option Reply, Steady t (replies ++ new.toList) ∧ (∀ r ∈ new, r.Clean) ∧
    (status = 0 → new = none → ∀ s ∈ sock, s.batchStart = true)

/-- A program that replies in this way. -/
def Answers (sock : Option Sock) (p : Thr ℤ) : Prop :=
  ∀ replies w, Steady w replies → wlp p (Replied sock replies) w

theorem Silent.answers {p : Thr α} {f : α → Thr ℤ} (hp : Silent p Q)
    (hf : ∀ a, Q a → Answers sock (f a)) : Answers sock (p >>= f) :=
  fun rs w hw => wlp_bind (wlp_mono (hp rs w hw) fun a t ht => hf a ht.2 rs t ht.1)

/-- Nothing is replied. -/
theorem Steady.replied {w : World} {rs : List Reply} (hw : Steady w rs) {status : ℤ}
    (h : status = 0 → ∀ s ∈ sock, s.batchStart = true) : Replied sock rs status w := by
  refine ⟨none, ?_, nofun, fun h0 _ => h h0⟩
  rw [Option.toList_none, List.append_nil]
  exact hw

/-- **`send_response`**, whatever its status is taken for. -/
theorem wlp_sendResponse {sock' : Option Sock}
    (hsock : (∀ s ∈ sock', s.batchStart = true) → ∀ s ∈ sock, s.batchStart = true)
    {reply : Reply} (hclean : reply.Clean) (rc : Resp) {rs : List Reply} {w : World}
    (hw : Steady w rs) :
    wlp (sendResponse sock' rc reply) (fun _ t => ∀ status, Replied sock rs status t) w := by
  refine wlp_bind (wlp_bind (wlp_get (wlp_pure ?_)))
  cases sock' with
  | none => exact wlp_pure fun status => hw.replied fun _ => hsock nofun
  | some s =>
    change wlp (if _ then _ else _) _ _
    by_cases hbatch : s.batchStart = true ∧ rc = .ok
    · rw [if_pos hbatch]
      refine wlp_pure fun status => hw.replied fun _ => hsock ?_
      rintro _ ⟨⟩
      exact hbatch.1
    · rw [if_neg hbatch]
      refine wlp_bind (wlp_modify (wlp_pure fun status => ⟨some reply, ?_, ?_, nofun⟩))
      · refine ⟨hw.cache, hw.others, ?_⟩
        rw [← hw.replies]
        rfl
      · rintro r ⟨⟩
        exact hclean

theorem answers_send (sock : Option Sock) (rc : Resp) {reply : Reply} (hclean : reply.Clean) :
    Answers sock (sendResponse sock rc reply) :=
  fun _ _ hw => wlp_mono (wlp_sendResponse (fun h => h) hclean rc hw) fun status _ ht => ht status

/-- Some handlers do not look at its status. -/
theorem answers_send_zero (sock : Option Sock) (rc : Resp) {reply : Reply} (hclean : reply.Clean) :
    Answers sock (sendResponse sock rc reply >>= fun _ => pure 0) :=
  fun _ _ hw => wlp_bind (wlp_mono (wlp_sendResponse (fun h => h) hclean rc hw) fun _ _ ht =>
    wlp_pure (ht 0))

/-- The connection is closed. -/
theorem answers_closed (sock : Option Sock) {status : ℤ} (h : status ≠ 0) :
    Answers sock (pure status) :=
  fun _ _ hw => wlp_pure (hw.replied fun h0 => absurd h0 h)

theorem clean_of_nil {reply : Reply} (h : reply.args = []) : reply.Clean := by
  intro t ht
  rw [h] at ht
  exact absurd ht List.not_mem_nil

theorem clean_of_single {reply : Reply} {t : Text} (h : reply.args = [t]) (ht : Plain t) :
    reply.Clean := by
  intro u hu
  rw [h] at hu
  obtain rfl := List.mem_singleton.mp hu
  exact ht

/-! ## The handlers -/

theorem answers_withAccess {file : Text} {k : Thr ℤ} (hk : Answers sock k) :
    Answers sock (withAccess opts sock file k) := by
  rw [withAccess]
  split_ifs
  · exact hk
  · exact answers_send_zero sock .err (clean_of_nil rfl)

theorem answers_withFile (hdir : ∀ dir ∈ opts.baseDir, Plain dir) {cmd : Cmd} {buffer : Text}
    (hb : OneLine buffer) {k : Text → Text → Thr ℤ}
    (hk : ∀ file rest, Plain file → OneLine rest → Answers sock (k file rest)) :
    Answers sock (withFile opts sock cmd buffer k) := by
  rw [withFile]
  split
  · exact answers_send sock .err (clean_of_nil rfl)
  · obtain ⟨hfile, hrest⟩ := oneLine_field hb ‹_›
    exact hk _ _ (plain_getAbsPath hdir hfile.plain) hrest

theorem silent_countStats : Silent countStats fun _ => True :=
  silent_underStats (silent_pure trivial)

theorem silent_journalUnlessReplay (sock : Option Sock) :
    Silent (journalUnlessReplay sock) fun _ => True := by
  rw [journalUnlessReplay]
  split_ifs
  · refine silent_ask.bind fun sys _ => ?_
    split_ifs
    · refine (silent_lock .journal).bind fun _ _ => (silent_unlock .journal).bind fun _ _ => ?_
      exact silent_countStats
    · exact (silent_lock .journal).bind fun _ _ => (silent_unlock .journal).bind fun _ _ =>
        silent_pure trivial
    · exact silent_pure trivial
  · exact silent_pure trivial

/-- The value loop of `handle_request_update`. -/
theorem silent_valueLoop (a : ℕ) {vs : List Text} (hvs : ∀ v ∈ vs, Plain v) (k num : ℕ) :
    Silent (valueLoop a vs k num) fun r => ∀ reply ∈ r.1, reply.Clean := by
  induction vs generalizing k num with
  | nil => exact silent_pure nofun
  | cons v vs ih =>
    have hv := hvs v List.mem_cons_self
    have ih := ih fun u hu => hvs u (List.mem_cons_of_mem v hu)
    refine (silent_item a).bind fun ci _ => ?_
    split
    · refine silent_pure ?_
      rintro reply ⟨⟩
      exact clean_of_single rfl hv
    · rename_i stamp _
      split_ifs
      · refine silent_pure ?_
        rintro reply ⟨⟩
        exact clean_of_nil rfl
      · refine (silent_modifyData a (f := fun ci => { ci with lastUpdateStamp := stamp })
          fun _ h => ⟨h.file, h.values⟩).bind fun _ _ => silent_ask.bind fun sys _ => ?_
        split_ifs
        · refine (silent_modifyData a (f := fun ci => { ci with values := ci.values ++ [v] })
            fun ci h => ⟨h.file, fun u hu => ?_⟩).bind fun _ _ => ih _ _
          rcases List.mem_append.mp hu with hu | hu
          · exact h.values u hu
          · obtain rfl := List.mem_singleton.mp hu
            exact hv
        · exact ih _ _

theorem answers_updateItem (a : ℕ) {values : List Text} (hvs : ∀ v ∈ values, Plain v) :
    Answers sock (updateItem opts sock now a values) := by
  refine (silent_journalUnlessReplay _).answers fun _ _ => ?_
  refine (silent_valueLoop a hvs 0 0).answers fun r hr => ?_
  split
  · rename_i reply hreply
    exact (silent_unlock .cache).answers fun _ _ => answers_send sock .err (hr reply hreply)
  · refine Silent.answers (Q := fun _ => True) ?_ fun _ _ => (silent_unlock .cache).answers fun _ _ => ?_
    · refine (silent_item a).bind fun ci _ => ?_
      split_ifs
      · exact silent_enqueueCacheItem a .tail
      · exact silent_pure trivial
    · split_ifs
      · exact answers_send sock .err (clean_of_nil rfl)
      · exact answers_send sock .ok (clean_of_nil rfl)

/-- The first section of `handle_request_update`, where the file may be in the tree. -/
theorem wlp_updateKnown (file : Text) {values : List Text} (hvs : ∀ v ∈ values, Plain v)
    {rs : List Reply} {w : World} (hw : Steady w rs) :
    wlp (updateKnown opts sock now file values) (fun r t => (r = none → Steady t rs) ∧
      ∀ status, r = some status → Replied sock rs status t) w := by
  refine wlp_bind (wlp_mono (silent_lock .cache rs w hw) fun _ t ht => ?_)
  refine wlp_bind (wlp_mono (silent_treeLookup file rs t ht.1) fun r t ht => ?_)
  cases r with
  | none =>
    refine wlp_bind (wlp_mono (silent_unlock .cache rs t ht.1) fun _ t ht => ?_)
    exact wlp_pure ⟨fun _ => ht.1, nofun⟩
  | some a =>
    refine wlp_bind (wlp_mono (answers_updateItem a hvs rs t ht.1) fun status t ht => ?_)
    refine wlp_pure ⟨nofun, ?_⟩
    rintro _ ⟨⟩
    exact ht

/-- Its second section. -/
theorem answers_updateNew {file : Text} (hfile : Plain file) {values : List Text}
    (hvs : ∀ v ∈ values, Plain v) : Answers sock (updateNew opts sock now file values) := by
  refine silent_ask.answers fun sys _ => (silent_lock .cache).answers fun _ _ => ?_
  have hitem : (newCacheItem opts now sys.random file).Plain :=
    ⟨hfile, fun _ hv => absurd hv List.not_mem_nil⟩
  have halloc : Silent (malloc (newCacheItem opts now sys.random file)) fun _ => True := by
    refine silent_get.bind fun w _ => ?_
    refine (silent_onCache (f := (·.alloc (newCacheItem opts now sys.random file))) ?_).bind
      fun _ _ => silent_pure trivial
    intro c h b n hn
    have hn : Function.update c.mem.node c.brk (some ⟨newCacheItem opts now sys.random file,
      none, none⟩) b = some n := hn
    by_cases hb : b = c.brk
    · subst hb
      rw [Function.update_self] at hn
      obtain rfl := Option.some.inj hn
      exact hitem
    · rw [Function.update_of_ne hb] at hn
      exact h b n hn
  refine halloc.answers fun ci _ => (silent_treeLookup file).answers fun r _ => ?_
  cases r with
  | none =>
    refine Silent.answers (Q := fun _ => True) (silent_onCache fun _ h => h) fun _ _ => ?_
    refine silent_get.answers fun w _ => ?_
    split_ifs
    · exact answers_closed sock (by decide)
    · exact answers_updateItem ci hvs
  | some tmp =>
    refine (silent_freeCacheItem ci).answers fun _ _ => silent_get.answers fun w _ => ?_
    split_ifs
    · exact answers_closed sock (by decide)
    · exact answers_updateItem tmp hvs

theorem answers_updateMissed {file : Text} (hfile : Plain file) {values : List Text}
    (hvs : ∀ v ∈ values, Plain v) : Answers sock (updateMissed opts sock now file values) := by
  refine silent_ask.answers fun sys _ => ?_
  split
  · exact answers_send sock .err (clean_of_single rfl hfile)
  · exact answers_send sock .err (clean_of_single rfl hfile)
  · exact answers_send sock .err (clean_of_single rfl hfile)
  · split_ifs
    · exact answers_send sock .err (clean_of_single rfl hfile)
    · exact answers_send sock .err (clean_of_nil rfl)
    · exact answers_send sock .err (clean_of_nil rfl)
    · exact answers_updateNew hfile hvs

theorem answers_handleRequestUpdate (hdir : ∀ dir ∈ opts.baseDir, Plain dir) {buffer : Text}
    (hb : OneLine buffer) : Answers sock (handleRequestUpdate opts sock now buffer) := by
  refine answers_withFile hdir hb fun file rest hfile hrest => ?_
  have hvs : ∀ v ∈ allFields rest, Plain v := plain_valueFields hrest
  refine silent_countStats.answers fun _ _ => answers_withAccess fun rs w hw => ?_
  refine wlp_bind (wlp_mono (wlp_updateKnown file hvs hw) fun r t ht => ?_)
  cases r with
  | none => exact answers_updateMissed hfile hvs rs t (ht.1 rfl)
  | some status => exact wlp_pure (ht.2 status rfl)

theorem silent_flushStart (file : Text) : Silent (flushStart file) fun _ => True := by
  refine (silent_lock .cache).bind fun _ _ => (silent_treeLookup file).bind fun r _ => ?_
  cases r with
  | none => exact (silent_unlock .cache).bind fun _ _ => silent_pure trivial
  | some a =>
    refine (silent_item a).bind fun ci _ => ?_
    split_ifs
    · refine (silent_enqueueCacheItem a .head).bind fun _ _ => ?_
      exact (silent_unlock .cache).bind fun _ _ => silent_pure trivial
    · exact (silent_unlock .cache).bind fun _ _ => silent_pure trivial

theorem silent_flushFile (file : Text) : Silent (flushFile file) fun _ => True := by
  refine (silent_flushStart file).bind fun r _ => ?_
  obtain _ | _ | _ := r
  · exact silent_pure trivial
  · exact silent_pure trivial
  · exact (silent_lock .cache).bind fun _ _ => (silent_unlock .cache).bind fun _ _ =>
      silent_pure trivial

theorem answers_handleRequestFlush (hdir : ∀ dir ∈ opts.baseDir, Plain dir) {buffer : Text}
    (hb : OneLine buffer) : Answers sock (handleRequestFlush opts sock buffer) := by
  refine answers_withFile hdir hb fun file rest hfile _ => silent_countStats.answers fun _ _ => ?_
  refine answers_withAccess ((silent_flushFile file).answers fun r _ => ?_)
  split_ifs
  · exact answers_send sock .ok (clean_of_single rfl hfile)
  · refine silent_ask.answers fun sys _ => ?_
    split_ifs
    · exact answers_send sock .ok (clean_of_single rfl hfile)
    · exact answers_send sock .err (clean_of_single rfl hfile)

theorem answers_handleRequestPending (hdir : ∀ dir ∈ opts.baseDir, Plain dir) {buffer : Text}
    (hb : OneLine buffer) : Answers sock (handleRequestPending opts sock buffer) := by
  refine answers_withFile hdir hb fun file rest _ _ => (silent_lock .cache).answers fun _ _ => ?_
  refine (silent_treeLookup file).answers fun r _ => ?_
  cases r with
  | none => exact (silent_unlock .cache).answers fun _ _ => answers_send sock .err (clean_of_nil rfl)
  | some a =>
    refine (silent_item a).answers fun ci hci => (silent_unlock .cache).answers fun _ _ => ?_
    exact answers_send sock .ok hci.values

theorem silent_forgetSection (file : Text) : Silent (forgetSection file) fun _ => True := by
  refine (silent_lock .cache).bind fun _ _ => (silent_treeRemove file).bind fun _ _ => ?_
  exact (silent_unlock .cache).bind fun _ _ => silent_pure trivial

theorem answers_handleRequestForget (hdir : ∀ dir ∈ opts.baseDir, Plain dir) {buffer : Text}
    (hb : OneLine buffer) : Answers sock (handleRequestForget opts sock buffer) := by
  refine answers_withFile hdir hb fun file rest _ _ => answers_withAccess ?_
  refine (silent_forgetSection file).answers fun found _ => ?_
  split_ifs
  · exact (silent_journalUnlessReplay _).answers fun _ _ => answers_send sock .ok (clean_of_nil rfl)
  · exact answers_send sock .err (clean_of_nil rfl)

/-- The loop of `QUEUE`. -/
theorem silent_walkQueue (fuel : ℕ) (p : Option ℕ) :
    Silent (walkQueue fuel p) fun files => ∀ f ∈ files, Plain f.2 := by
  induction fuel generalizing p with
  | zero =>
    cases p with
    | none => exact silent_pure fun _ hf => absurd hf List.not_mem_nil
    | some a => exact silent_throw
  | succ fuel ih =>
    cases p with
    | none => exact silent_pure fun _ hf => absurd hf List.not_mem_nil
    | some a =>
      refine (silent_item a).bind fun ci hci => silent_get.bind fun w _ => (ih _).bind fun fs hfs => ?_
      refine silent_pure fun f hf => ?_
      rcases List.mem_cons.mp hf with rfl | hf
      · exact hci.file
      · exact hfs f hf

theorem answers_handleRequestQueue : Answers sock (handleRequestQueue sock) := by
  refine (silent_lock .cache).answers fun _ _ => silent_get.answers fun w _ => ?_
  refine (silent_walkQueue _ _).answers fun files hfiles => (silent_unlock .cache).answers fun _ _ => ?_
  refine answers_send sock .ok fun t ht => ?_
  obtain ⟨f, hf, rfl⟩ := List.mem_map.mp ht
  exact hfiles f hf

theorem answers_handleRequestStats : Answers sock (handleRequestStats sock) := by
  refine (silent_lock .stats).answers fun _ _ => silent_get.answers fun w _ => ?_
  refine (silent_unlock .stats).answers fun _ _ => (silent_lock .cache).answers fun _ _ => ?_
  refine silent_get.answers fun w' _ => (silent_unlock .cache).answers fun _ _ => ?_
  exact answers_send_zero sock .ok (clean_of_nil rfl)

theorem answers_handleBatchStart : Answers sock (handleBatchStart sock) := by
  unfold handleBatchStart
  split
  · exact answers_send _ .err (clean_of_nil rfl)
  · exact answers_send _ .ok (clean_of_nil rfl)

theorem answers_handleBatchDone : Answers sock (handleBatchDone sock) := by
  refine (silent_check _).answers fun _ _ rs w hw => ?_
  refine wlp_mono (wlp_sendResponse ?_ (clean_of_nil rfl) .ok hw) fun status _ ht => ht status
  intro h s hs
  exact absurd (h _ (Option.mem_map_of_mem _ hs)) Bool.false_ne_true

theorem silent_handleRequestWrote (buffer : Text) :
    Silent (handleRequestWrote opts now buffer) fun _ => True := by
  refine (silent_lock .cache).bind fun _ _ => (silent_treeLookup _).bind fun r _ => ?_
  cases r with
  | none => exact (silent_unlock .cache).bind fun _ _ => silent_pure trivial
  | some a =>
    refine silent_ask.bind fun sys _ => Silent.bind (Q := fun _ => True) ?_ fun _ _ =>
      (silent_unlock .cache).bind fun _ _ => silent_pure trivial
    exact (silent_modifyData a fun _ h => wipe_plain now sys.random h).bind fun _ _ =>
      silent_removeFromQueue a

theorem silent_takeSection : Silent (takeSection opts) fun _ => True := by
  refine (silent_lock .cache).bind fun _ _ => silent_get.bind fun w _ => ?_
  split
  · exact silent_unlock .cache
  · refine (silent_item _).bind fun ci _ => silent_ask.bind fun sys _ => ?_
    split_ifs
    · exact silent_unlock .cache
    · refine (silent_check _).bind fun _ _ => Silent.bind (Q := fun _ => True) ?_ fun _ _ =>
        silent_unlock .cache
      exact (silent_modifyData _ fun _ h => wipe_plain _ _ h).bind fun _ _ => silent_removeFromQueue _

/-- A client does not get to the handler of `WROTE`, which replies nothing. -/
theorem answers_handler (hdir : ∀ dir ∈ opts.baseDir, Plain dir) {cmd : Cmd}
    (hcmd : commandCheckContext sock cmd = true) {buffer : Text} (hb : OneLine buffer) :
    Answers sock (handler opts cmd sock now buffer) := by
  cases cmd with
  | update => exact answers_handleRequestUpdate hdir hb
  | wrote =>
    refine fun rs w hw => wlp_mono (silent_handleRequestWrote buffer rs w hw) fun status _ ht => ?_
    refine ht.1.replied fun _ s hs => ?_
    obtain rfl := Option.mem_def.mp hs
    revert hcmd
    cases h : s.batchStart <;> simp [commandCheckContext, Cmd.context, h]
  | flush => exact answers_handleRequestFlush hdir hb
  | flushall => exact (silent_flushSection (-1)).answers fun _ _ => answers_send sock .ok (clean_of_nil rfl)
  | pending => exact answers_handleRequestPending hdir hb
  | forget => exact answers_handleRequestForget hdir hb
  | queue => exact answers_handleRequestQueue
  | stats => exact answers_handleRequestStats
  | help => exact answers_send sock .ok (clean_of_nil rfl)
  | batch => exact answers_handleBatchStart
  | dot => exact answers_handleBatchDone
  | quit => exact answers_closed sock (by decide)

/-- **`handle_request`**: at most one reply, without a newline in its texts, and exactly one for a client
if the connection goes on and no batch does. -/
theorem answers_handleRequest (hdir : ∀ dir ∈ opts.baseDir, Plain dir) {buffer : Text}
    (hb : OneLine buffer) : Answers sock (handleRequest opts sock now buffer) := by
  refine (silent_check _).answers fun _ _ => ?_
  split
  · exact answers_closed sock (by decide)
  · obtain ⟨hfield, hrest⟩ := oneLine_field hb ‹_›
    split
    · exact answers_send sock .err (clean_of_single rfl hfield.plain)
    · split_ifs with hperm hctx
      · exact answers_send sock .err (clean_of_nil rfl)
      · exact answers_send sock .err (clean_of_single rfl hfield.plain)
      · exact answers_handler hdir (by simpa using hctx) hrest

/-! ## Other threads -/

/-- What comes from a request has no newline. -/
def Section.Plain : Section → Prop
  | .update _ _ file values | .insert _ _ file values =>
    Daemon.Plain file ∧ ∀ v ∈ values, Daemon.Plain v
  | _ => True

theorem Answers.keeps {p : Thr ℤ} (h : Answers sock p) {rs : List Reply} {w : World} (hw : Steady w rs) :
    wlp p (fun _ t => t.cache.Plain) w :=
  wlp_mono (h rs w hw) fun _ _ ht => by
    obtain ⟨_, ht, -⟩ := ht
    exact ht.cache

theorem Silent.keeps {p : Thr α} (h : Silent p Q) {rs : List Reply} {w : World} (hw : Steady w rs) :
    wlp p (fun _ t => t.cache.Plain) w :=
  wlp_mono (h rs w hw) fun _ _ ht => ht.1.cache

/-- **A section** brings no newline into the cache. -/
theorem sectionStep_plain {c c' : Cache} (hc : c.Plain) {s : Section × Sys} (hs : s.1.Plain)
    (h : sectionStep opts c s = .ok c') : c'.Plain := by
  obtain ⟨s, sys⟩ := s
  have hw : Steady (.alone c sys) [] := ⟨hc, fun _ _ h => h, rfl⟩
  have hprog : wlp (s.prog opts) (fun _ t => t.cache.Plain) (.alone c sys) := by
    cases s with
    | update sock now file values =>
      refine wlp_bind (wlp_mono (wlp_updateKnown file hs.2 hw) fun r t ht => wlp_pure ?_)
      cases r with
      | none => exact (ht.1 rfl).cache
      | some status =>
        obtain ⟨_, ht, -⟩ := ht.2 status rfl
        exact ht.cache
    | insert sock now file values =>
      exact wlp_bind (wlp_mono ((answers_updateNew hs.1 hs.2).keeps hw) fun _ _ ht => wlp_pure ht)
    | flush file =>
      exact wlp_bind (wlp_mono ((silent_flushStart file).keeps hw) fun _ _ ht => wlp_pure ht)
    | flushOld maxAge => exact (silent_flushSection maxAge).keeps hw
    | forget file =>
      exact wlp_bind (wlp_mono ((silent_forgetSection file).keeps hw) fun _ _ ht => wlp_pure ht)
    | wrote now buffer =>
      exact wlp_bind (wlp_mono ((silent_handleRequestWrote buffer).keeps hw) fun _ _ ht => wlp_pure ht)
    | take => exact silent_takeSection.keeps hw
    | setMode mode => exact wlp_modify hc
  rw [sectionStep] at h
  cases hrun : s.prog opts (.alone c sys) with
  | error e =>
    rw [hrun] at h
    cases h
  | ok r =>
    rw [hrun] at h
    obtain rfl := Except.ok.inj h
    exact hprog r.1 r.2 hrun

theorem runSections_plain {c c' : Cache} (hc : c.Plain) {ss : List (Section × Sys)}
    (hss : ∀ s ∈ ss, s.1.Plain) (h : runSections opts c ss = .ok c') : c'.Plain := by
  induction ss generalizing c with
  | nil =>
    obtain rfl := Except.ok.inj h
    exact hc
  | cons s ss ih =>
    rw [runSections] at h
    cases hstep : sectionStep opts c s with
    | error e =>
      rw [hstep] at h
      cases h
    | ok c₁ =>
      rw [hstep] at h
      exact ih (sectionStep_plain hc (hss s List.mem_cons_self) hstep)
        (fun u hu => hss u (List.mem_cons_of_mem s hu)) h

theorem afterSections_plain {c : Cache} (hc : c.Plain) {ss : List (Section × Sys)}
    (hss : ∀ s ∈ ss, s.1.Plain) : (afterSections opts ss c).Plain := by
  rw [afterSections]
  split
  · exact runSections_plain hc hss ‹_›
  · exact hc

/-- **A thread among others** whose requests have no newline either. -/
theorem among_steady {ss : List (Section × Sys)} (hss : ∀ s ∈ ss, s.1.Plain)
    {others : ℕ → List (Section × Sys)} (hothers : ∀ n, ∀ s ∈ others n, s.1.Plain) (sys : ℕ → Sys) :
    Steady (.among opts ss others sys) [] := by
  refine ⟨afterSections_plain ?_ hss, fun n c hc => afterSections_plain hc (hothers n), rfl⟩
  intro a n hn
  cases hn

end Rrdtool.Daemon

import Rrdtool.Daemon.Handlers

/-!
# The queue of the daemon

The pointers, flags and counters of the queue against a list of items. `Queued c q` says that the
cache represents the list `q`; the functions of the daemon do to it what the model of the daemon
with lists does, and none of their assertions fails.

* `queue_invariant` — in every state that sections of any threads reach, in any order, the queue is
  consistent.
-/

namespace Rrdtool.Daemon

open Wp

/-! ## Programs that keep their locks -/

/-- `p` changes the cache of `w` and nothing else, and ends with `Q`. -/
def Within (w : World) {α : Type} (p : Thr α) (Q : α → Cache → Prop) : Prop :=
  wp p (fun a t => ∃ c, t = { w with cache := c } ∧ Q a c) w

section Within

variable {w : World} {α β : Type} {p : Thr α} {f : α → Thr β} {Q R : α → Cache → Prop}

theorem Within.mono (h : Within w p Q) (hQR : ∀ a c, Q a c → R a c) : Within w p R :=
  wp_mono h fun a _ ⟨c, ht, hc⟩ => ⟨c, ht, hQR a c hc⟩

theorem within_pure {a : α} (h : Q a w.cache) : Within w (pure a) Q :=
  wp_pure.mpr ⟨w.cache, rfl, h⟩

theorem Within.bind {Q' : β → Cache → Prop} (h : Within w p Q)
    (hf : ∀ a c, Q a c → Within { w with cache := c } (f a) Q') : Within w (p >>= f) Q' := by
  refine wp_bind.mpr (wp_mono h fun a t ⟨c, ht, hc⟩ => ?_)
  subst ht
  exact hf a c hc

theorem within_get {f : World → Thr β} {Q : β → Cache → Prop} (h : Within w (f w) Q) :
    Within w (get >>= f) Q :=
  wp_bind.mpr (wp_get.mpr h)

theorem within_ask {f : Sys → Thr β} {Q : β → Cache → Prop} (h : Within w (f (w.sys w.acq)) Q) :
    Within w (ask >>= f) Q :=
  wp_bind.mpr (wp_bind.mpr (wp_get.mpr (wp_pure.mpr h)))

theorem within_check {c : Prop} [Decidable c] {f : Unit → Thr β} {Q : β → Cache → Prop} (hc : c)
    (h : Within w (f ()) Q) : Within w (check c >>= f) Q := by
  rw [check, if_pos hc]
  exact wp_bind.mpr (wp_pure.mpr h)

theorem within_treeLookup {file : Text} {f : Option ℕ → Thr β} {Q : β → Cache → Prop}
    (h : Within w (f (w.cache.tree file)) Q) : Within w (treeLookup file >>= f) Q :=
  wp_bind.mpr (wp_bind.mpr (wp_get.mpr (wp_pure.mpr h)))

theorem within_onCache {g : Cache → Cache} {Q : Unit → Cache → Prop} (h : Q () (g w.cache)) :
    Within w (onCache g) Q :=
  wp_modify.mpr ⟨g w.cache, rfl, h⟩

theorem within_link {g : Dll.Mem ℕ CacheItem → Option (Dll.Mem ℕ CacheItem)}
    {m : Dll.Mem ℕ CacheItem} {Q : Unit → Cache → Prop} (hg : g w.cache.mem = some m)
    (h : Q () { w.cache with mem := m }) : Within w (link g) Q := by
  refine wp_bind.mpr (wp_get.mpr ?_)
  rw [hg]
  exact wp_set.mpr ⟨_, rfl, h⟩

/-- Behind a write, in the cache it has left. -/
theorem within_link_bind {g : Dll.Mem ℕ CacheItem → Option (Dll.Mem ℕ CacheItem)}
    {m : Dll.Mem ℕ CacheItem} {f : Unit → Thr β} {Q : β → Cache → Prop}
    (hg : g w.cache.mem = some m)
    (h : Within { w with cache := { w.cache with mem := m } } (f ()) Q) :
    Within w (link g >>= f) Q := by
  refine (within_link (Q := fun _ c => c = { w.cache with mem := m }) hg rfl).bind ?_
  rintro _ _ rfl
  exact h

/-- A mutex other than `cache_lock` is taken. -/
theorem wp_take {l : Lock} {Q : Unit → World → Prop} (hl : l ≠ .cache) (hfree : w.held l = false)
    (h : Q () { w with held := Function.update w.held l true }) : wp (lock l) Q w := by
  refine wp_bind.mpr (wp_get.mpr ?_)
  rw [hfree]
  cases l with
  | cache => exact absurd rfl hl
  | stats => exact wp_set.mpr h
  | journal => exact wp_set.mpr h

/-- A mutex is given back. -/
theorem wp_release {l : Lock} {Q : Unit → World → Prop} (hfree : w.held l = false) (h : Q () w) :
    wp (unlock l) Q { w with held := Function.update w.held l true } := by
  refine wp_bind.mpr (wp_get.mpr ?_)
  have hback : Function.update (Function.update w.held l true) l false = w.held := by
    rw [Function.update_idem, ← hfree, Function.update_eq_self]
  simp only [Function.update_self, if_true, hback]
  exact wp_set.mpr h

theorem within_underStats {q : Thr Unit} {Q : Unit → Cache → Prop} (hs : w.held .stats = false)
    (h : Within { w with held := Function.update w.held .stats true } q Q) :
    Within w (underStats q) Q := by
  refine wp_bind.mpr (wp_take (by decide) hs (wp_bind.mpr (wp_mono h ?_)))
  rintro _ _ ⟨c, rfl, hc⟩
  exact wp_release (w := { w with cache := c }) hs ⟨c, rfl, hc⟩

end Within

/-! ## The invariant -/

/-- The item at an address. -/
def Cache.item (c : Cache) (a : ℕ) : Option CacheItem := (c.mem.node a).map Dll.Node.data

theorem within_item {w : World} {a : ℕ} {ci : CacheItem} {β : Type} {f : CacheItem → Thr β}
    {Q : β → Cache → Prop} (hci : w.cache.item a = some ci) (h : Within w (f ci) Q) :
    Within w (item a >>= f) Q := by
  obtain ⟨n, hn, rfl⟩ := Option.map_eq_some_iff.mp hci
  refine wp_bind.mpr (wp_bind.mpr (wp_get.mpr ?_))
  rw [hn]
  exact wp_pure.mpr h

/-- **The cache represents the queue `q`.** -/
structure Cache.Queued (c : Cache) (q : List ℕ) : Prop where
  holds : Dll.Holds c.mem q
  flag : ∀ a ci, c.item a = some ci → (ci.inQueue = true ↔ a ∈ q)
  length : c.queueLength = q.length

/-- The tree has the items under the names of their files. -/
structure Cache.Indexed (c : Cache) : Prop where
  tree_item : ∀ f a, c.tree f = some a → ∃ ci, c.item a = some ci ∧ ci.file = f
  item_tree : ∀ a ci, c.item a = some ci → c.tree ci.file = some a
  keys_nodup : c.keys.Nodup
  mem_keys : ∀ f, f ∈ c.keys ↔ (c.tree f).isSome = true
  fresh : ∀ a, c.brk ≤ a → c.item a = none

/-- Every item of the queue has values. -/
def Cache.Loaded (c : Cache) (q : List ℕ) : Prop :=
  ∀ a ∈ q, ∀ ci, c.item a = some ci → ci.values ≠ []

/-- **A well-formed cache.** -/
def Cache.Wf (c : Cache) : Prop := ∃ q, c.Queued q ∧ c.Indexed ∧ c.Loaded q

/-- Only items, links and the length of the queue have changed. -/
structure SameIndex (c c' : Cache) : Prop where
  tree : c'.tree = c.tree
  keys : c'.keys = c.keys
  brk : c'.brk = c.brk
  mode : c'.mode = c.mode

theorem SameIndex.refl (c : Cache) : SameIndex c c := ⟨rfl, rfl, rfl, rfl⟩

theorem SameIndex.trans {c c' c'' : Cache} (h : SameIndex c c') (h' : SameIndex c' c'') :
    SameIndex c c'' :=
  ⟨h'.tree.trans h.tree, h'.keys.trans h.keys, h'.brk.trans h.brk, h'.mode.trans h.mode⟩

theorem SameIndex.mem {c c' : Cache} {m : Dll.Mem ℕ CacheItem}
    (h : SameIndex { c with mem := m } c') : SameIndex c c' :=
  ⟨h.tree, h.keys, h.brk, h.mode⟩

/-- Nothing but an item has changed, and it has kept its file. -/
theorem Cache.Indexed.update {c c' : Cache} (h : c.Indexed) (hs : SameIndex c c') {a : ℕ}
    {ci ci' : CacheItem} (hci : c.item a = some ci)
    (hitem : c'.item = Function.update c.item a (some ci')) (hfile : ci'.file = ci.file) :
    c'.Indexed := by
  have hget : ∀ b, c'.item b = if b = a then some ci' else c.item b := by
    intro b
    rw [hitem]
    by_cases hb : b = a
    · subst hb
      simp
    · simp [hb]
  refine ⟨fun f b hf => ?_, fun b cb hb => ?_, hs.keys ▸ h.keys_nodup, fun f => ?_, fun b hb => ?_⟩
  · rw [hs.tree] at hf
    obtain ⟨cb, hcb, hfb⟩ := h.tree_item f b hf
    rw [hget]
    split_ifs with hba
    · subst hba
      obtain rfl := Option.some.inj (hci.symm.trans hcb)
      exact ⟨ci', rfl, hfile.trans hfb⟩
    · exact ⟨cb, hcb, hfb⟩
  · rw [hs.tree]
    rw [hget] at hb
    split_ifs at hb with hba
    · subst hba
      obtain rfl := Option.some.inj hb
      rw [hfile]
      exact h.item_tree b ci hci
    · exact h.item_tree b cb hb
  · rw [hs.keys, hs.tree]
    exact h.mem_keys f
  · rw [hs.brk] at hb
    have hnone := h.fresh b hb
    rw [hget, if_neg, hnone]
    rintro rfl
    rw [hnone] at hci
    exact absurd hci (by simp)

/-! ## Operations on the queue -/

variable {w : World} {q : List ℕ} {a : ℕ} {ci : CacheItem}

/-- The items after a write to one of them. -/
theorem item_modifyData {c : Cache} {m : Dll.Mem ℕ CacheItem} {f : CacheItem → CacheItem}
    (hci : c.item a = some ci) (hm : c.mem.modifyData a f = some m) :
    Cache.item { c with mem := m } = Function.update c.item a (some (f ci)) := by
  obtain ⟨n, hn, hn', hother, -, -⟩ := Dll.modify_eq_some hm
  obtain rfl : n.data = ci := by simpa [Cache.item, hn] using hci
  funext b
  by_cases hb : b = a
  · subst hb
    simp [Cache.item, hn']
  · simp [Cache.item, hother b hb, hb]

theorem exists_modifyData {c : Cache} (hci : c.item a = some ci) (f : CacheItem → CacheItem) :
    ∃ m, c.mem.modifyData a f = some m := by
  obtain ⟨n, hn, -⟩ := Option.map_eq_some_iff.mp hci
  obtain ⟨m, hm, -⟩ := Dll.modify_ok hn fun n => { n with data := f n.data }
  exact ⟨m, hm⟩

/-- Writing to an item: the queue stays, and so does everything else. -/
theorem within_modifyData {f : CacheItem → CacheItem} (hq : w.cache.Queued q)
    (hci : w.cache.item a = some ci) (hflag : (f ci).inQueue = ci.inQueue) :
    Within w (link (·.modifyData a f)) fun _ c => c.Queued q ∧
      c.item = Function.update w.cache.item a (some (f ci)) ∧ SameIndex w.cache c := by
  obtain ⟨m, hm⟩ := exists_modifyData hci f
  have hitem := item_modifyData hci hm
  refine within_link hm ⟨⟨hq.holds.modifyData hm, fun b cb hb => ?_, hq.length⟩, hitem,
    rfl, rfl, rfl, rfl⟩
  rw [hitem] at hb
  by_cases hba : b = a
  · subst hba
    rw [Function.update_self] at hb
    obtain rfl := Option.some.inj hb
    rw [hflag]
    exact hq.flag b ci hci
  · rw [Function.update_of_ne hba] at hb
    exact hq.flag b cb hb

/-- **`remove_from_queue`** -/
theorem within_removeFromQueue (hs : w.held .stats = false) (hq : w.cache.Queued q)
    (hci : w.cache.item a = some ci) :
    Within w (removeFromQueue a) fun _ c => c.Queued (q.erase a) ∧
      c.item = Function.update w.cache.item a (some { ci with inQueue := false }) ∧
      SameIndex w.cache c := by
  refine within_item hci ?_
  cases hflag : ci.inQueue with
  | false =>
    have hnot : a ∉ q := fun h => by simp [(hq.flag a ci hci).mpr h] at hflag
    simp only [Bool.false_eq_true, if_false]
    refine within_pure ⟨?_, ?_, SameIndex.refl _⟩
    · rw [List.erase_of_not_mem hnot]
      exact hq
    · have hsame : { ci with inQueue := false } = ci := by rw [← hflag]
      rw [hsame, ← hci, Function.update_eq_self]
  | true =>
    have hmem : a ∈ q := (hq.flag a ci hci).mp hflag
    obtain ⟨xs, ys, rfl⟩ := List.append_of_mem hmem
    have hnd := hq.holds.nodup
    have herase : (xs ++ a :: ys).erase a = xs ++ ys := by
      have hax : a ∉ xs := fun h => (List.nodup_append.mp hnd).2.2 a h a List.mem_cons_self rfl
      rw [List.erase_append_right _ hax, List.erase_cons_head]
    obtain ⟨m, hm, hholds, hdata⟩ := Dll.unlink_holds hq.holds
    rw [herase]
    simp only [if_true]
    refine within_link_bind hm ?_
    have hitem : Cache.item { w.cache with mem := m } = w.cache.item := funext hdata
    have hci' := (congrFun hitem a).trans hci
    obtain ⟨m', hm'⟩ := exists_modifyData hci' fun ci => { ci with inQueue := false }
    have hitem' := item_modifyData hci' hm'
    rw [hitem] at hitem'
    refine within_link_bind hm' (within_underStats hs (within_get ?_))
    have hlen : w.cache.queueLength = (xs ++ a :: ys).length := hq.length
    refine within_check ?_ ?_
    · show 0 < w.cache.queueLength
      rw [hlen, List.length_append, List.length_cons]
      omega
    refine within_onCache ⟨⟨hholds.modifyData hm', fun b cb hb => ?_, ?_⟩, hitem', rfl, rfl, rfl, rfl⟩
    · have hb' : Function.update w.cache.item a (some { ci with inQueue := false }) b = some cb := by
        rw [← hitem']
        exact hb
      by_cases hba : b = a
      · subst hba
        rw [Function.update_self] at hb'
        obtain rfl := Option.some.inj hb'
        have hnot : b ∉ xs ++ ys := herase ▸ hnd.not_mem_erase
        simp [hnot]
      · rw [Function.update_of_ne hba] at hb'
        rw [hq.flag b cb hb', List.mem_append, List.mem_append, List.mem_cons]
        simp [hba]
    · show w.cache.queueLength - 1 = (xs ++ ys).length
      rw [hlen, List.length_append, List.length_append, List.length_cons]
      omega

/-- **`free_cache_item`** -/
theorem within_freeCacheItem (hs : w.held .stats = false) (hq : w.cache.Queued q)
    (hci : w.cache.item a = some ci) :
    Within w (freeCacheItem a) fun _ c => c.Queued (q.erase a) ∧
      c.item = Function.update w.cache.item a none ∧ SameIndex w.cache c := by
  refine (within_removeFromQueue hs hq hci).bind fun _ c ⟨hq', hitem, hsame⟩ => ?_
  have hnot : a ∉ q.erase a := hq.holds.nodup.not_mem_erase
  have hitem' : Cache.item { c with mem := { c.mem with node := Function.update c.mem.node a none } } =
      Function.update w.cache.item a none := by
    funext b
    by_cases hb : b = a
    · subst hb
      simp [Cache.item]
    · have hcb := congrFun hitem b
      simp only [Function.update_of_ne hb] at hcb ⊢
      rw [← hcb]
      simp [Cache.item, hb]
  refine within_onCache ⟨⟨?_, fun b cb hb => ?_, hq'.length⟩, hitem', hsame.tree, hsame.keys, hsame.brk,
    hsame.mode⟩
  · exact hq'.holds.store hnot none
  · have hba : b ≠ a := by
      rintro rfl
      simp [Cache.item] at hb
    refine hq'.flag b cb ?_
    rw [hitem, Function.update_of_ne hba]
    rw [show (Cache.item _ b = _) from congrFun hitem' b, Function.update_of_ne hba] at hb
    exact hb

/-- A new link in the list, and the flag and the counter that go with it. -/
theorem within_markQueued {q' : List ℕ} (hs : w.held .stats = false)
    (hholds : Dll.Holds w.cache.mem q') (hlen : w.cache.queueLength + 1 = q'.length) (ha : a ∈ q')
    (hci : w.cache.item a = some ci)
    (hflag : ∀ b cb, b ≠ a → w.cache.item b = some cb → (cb.inQueue = true ↔ b ∈ q')) :
    Within w (markQueued a) fun _ c => c.Queued q' ∧
      c.item = Function.update w.cache.item a (some { ci with inQueue := true }) ∧
      SameIndex w.cache c := by
  obtain ⟨m, hm⟩ := exists_modifyData hci fun ci => { ci with inQueue := true }
  have hitem := item_modifyData hci hm
  refine within_link_bind hm (within_underStats hs (within_onCache ?_))
  refine ⟨⟨hholds.modifyData hm, fun b cb hb => ?_, hlen⟩, hitem, rfl, rfl, rfl, rfl⟩
  have hb' : Function.update w.cache.item a (some { ci with inQueue := true }) b = some cb := by
    rw [← hitem]
    exact hb
  by_cases hba : b = a
  · subst hba
    rw [Function.update_self] at hb'
    obtain rfl := Option.some.inj hb'
    simp [ha]
  · rw [Function.update_of_ne hba] at hb'
    exact hflag b cb hba hb'

/-- The queue after `enqueue_cache_item`. -/
def enqueued (side : Side) (a : ℕ) (q : List ℕ) : List ℕ :=
  match side with
  | .head => if q.head? = some a then q else a :: q.erase a
  | .tail => if a ∈ q then q else q ++ [a]

theorem mem_enqueued {side : Side} {b : ℕ} : b ∈ enqueued side a q ↔ b = a ∨ b ∈ q := by
  cases side with
  | head =>
    simp only [enqueued]
    split_ifs with hh
    · have : a ∈ q := List.mem_of_head? hh
      constructor
      · exact .inr
      · rintro (rfl | hb)
        · exact this
        · exact hb
    · rw [List.mem_cons]
      by_cases hb : b = a
      · simp [hb]
      · simp [hb, List.mem_erase_of_ne hb]
  | tail =>
    simp only [enqueued]
    split_ifs with hm
    · constructor
      · exact .inr
      · rintro (rfl | hb)
        · exact hm
        · exact hb
    · rw [List.mem_append, List.mem_singleton, or_comm]

/-- **`enqueue_cache_item`**, for an item with values. -/
theorem within_enqueueCacheItem (hs : w.held .stats = false) (hq : w.cache.Queued q)
    (hci : w.cache.item a = some ci) (hv : ci.values ≠ []) (side : Side) :
    Within w (enqueueCacheItem a side) fun _ c => c.Queued (enqueued side a q) ∧
      c.item = Function.update w.cache.item a (some { ci with inQueue := true }) ∧
      SameIndex w.cache c := by
  -- an item that is already there stays as it is
  have hstay : a ∈ q → w.cache.item =
      Function.update w.cache.item a (some { ci with inQueue := true }) := by
    intro hmem
    have hflag : ci.inQueue = true := (hq.flag a ci hci).mpr hmem
    have hsame : { ci with inQueue := true } = ci := by rw [← hflag]
    rw [hsame, ← hci, Function.update_eq_self]
  refine within_item hci ?_
  rw [if_neg hv]
  cases side with
  | head =>
    refine within_get ?_
    simp only [enqueued]
    rw [hq.holds.head]
    split_ifs with hhead
    · exact within_pure ⟨hq, hstay (List.mem_of_head? hhead), SameIndex.refl _⟩
    · refine (within_removeFromQueue hs hq hci).bind fun _ c ⟨hq', hitem, hsame⟩ => ?_
      have hnot : a ∉ q.erase a := hq.holds.nodup.not_mem_erase
      have hci' : c.item a = some { ci with inQueue := false } := by
        rw [hitem, Function.update_self]
      obtain ⟨n, hn, -⟩ := Option.map_eq_some_iff.mp hci'
      obtain ⟨m, hm, hholds, hdata⟩ := Dll.pushFront_holds hq'.holds hn hnot
      have hitem' : Cache.item { c with mem := m } = c.item := funext hdata
      refine within_link_bind hm (Within.mono (within_markQueued hs hholds ?_ List.mem_cons_self
        ((congrFun hitem' a).trans hci') ?_) ?_)
      · show c.queueLength + 1 = _
        rw [hq'.length, List.length_cons]
      · intro b cb hba hb
        rw [hq'.flag b cb ((congrFun hitem' b).symm.trans hb), List.mem_cons]
        simp [hba]
      · rintro _ c' ⟨hq'', hitem'', hsame'⟩
        refine ⟨hq'', ?_, hsame.trans (SameIndex.mem hsame')⟩
        rw [hitem'', hitem', hitem, Function.update_idem]
  | tail =>
    simp only [enqueued]
    by_cases hmem : a ∈ q
    · rw [if_pos hmem, if_pos ((hq.flag a ci hci).mpr hmem)]
      exact within_pure ⟨hq, hstay hmem, SameIndex.refl _⟩
    · have hflag : ¬ci.inQueue = true := fun h => hmem ((hq.flag a ci hci).mp h)
      rw [if_neg hmem, if_neg hflag]
      obtain ⟨n, hn, -⟩ := Option.map_eq_some_iff.mp hci
      obtain ⟨hprev, hnext⟩ := hq.holds.off a n hn hmem
      refine within_get (within_check ?_ (within_check ?_ ?_))
      · simp [Dll.Mem.next, hn, hnext]
      · simp [Dll.Mem.prev, hn, hprev]
      obtain ⟨m, hm, hholds, hdata⟩ := Dll.pushBack_holds hq.holds hn hmem
      have hitem' : Cache.item { w.cache with mem := m } = w.cache.item := funext hdata
      refine within_link_bind hm (Within.mono (within_markQueued hs hholds ?_ (by simp)
        ((congrFun hitem' a).trans hci) ?_) ?_)
      · show w.cache.queueLength + 1 = _
        rw [hq.length, List.length_append]
        rfl
      · intro b cb hba hb
        rw [hq.flag b cb ((congrFun hitem' b).symm.trans hb), List.mem_append, List.mem_singleton]
        simp [hba]
      · rintro _ c' ⟨hq'', hitem'', hsame'⟩
        refine ⟨hq'', ?_, SameIndex.mem hsame'⟩
        rw [hitem'', hitem']

/-! ## Well-formed caches -/

/-- **An item with values is put into the queue.** -/
theorem wf_enqueue (hs : w.held .stats = false) (hwf : w.cache.Wf) (hci : w.cache.item a = some ci)
    (hv : ci.values ≠ []) (side : Side) :
    Within w (enqueueCacheItem a side) fun _ c => c.Wf ∧ SameIndex w.cache c := by
  obtain ⟨q, hq, hidx, hload⟩ := hwf
  refine (within_enqueueCacheItem hs hq hci hv side).mono ?_
  rintro _ c ⟨hq', hitem, hsame⟩
  refine ⟨⟨_, hq', hidx.update hsame hci hitem rfl, fun b hb cb hcb => ?_⟩, hsame⟩
  rw [hitem] at hcb
  by_cases hba : b = a
  · subst hba
    rw [Function.update_self] at hcb
    obtain rfl := Option.some.inj hcb
    exact hv
  · rw [Function.update_of_ne hba] at hcb
    exact hload b ((mem_enqueued.mp hb).resolve_left hba) cb hcb

/-- **A write to an item** that keeps its file, its flag and a value if it has one. -/
theorem wf_modifyData {f : CacheItem → CacheItem} (hwf : w.cache.Wf)
    (hci : w.cache.item a = some ci) (hfile : (f ci).file = ci.file)
    (hflag : (f ci).inQueue = ci.inQueue) (hv : ci.values ≠ [] → (f ci).values ≠ []) :
    Within w (link (·.modifyData a f)) fun _ c => c.Wf ∧ SameIndex w.cache c ∧
      c.item a = some (f ci) := by
  obtain ⟨q, hq, hidx, hload⟩ := hwf
  refine (within_modifyData hq hci hflag).mono ?_
  rintro _ c ⟨hq', hitem, hsame⟩
  refine ⟨⟨q, hq', hidx.update hsame hci hitem hfile, fun b hb cb hcb => ?_⟩, hsame, ?_⟩
  · rw [hitem] at hcb
    by_cases hba : b = a
    · subst hba
      rw [Function.update_self] at hcb
      obtain rfl := Option.some.inj hcb
      exact hv (hload b hb ci hci)
    · rw [Function.update_of_ne hba] at hcb
      exact hload b hb cb hcb
  · rw [hitem, Function.update_self]

/-- **An item is wiped and taken out of the queue.** -/
theorem wf_dropValues {opts : Opts} {now : ℤ} {random : ℕ} (hs : w.held .stats = false)
    (hwf : w.cache.Wf) (hci : w.cache.item a = some ci) :
    Within w (dropValues opts now random a) fun _ c => c.Wf := by
  obtain ⟨q, hq, hidx, hload⟩ := hwf
  refine (within_modifyData hq hci rfl).bind fun _ c ⟨hq', hitem, hsame⟩ => ?_
  have hci' : c.item a = some (wipe opts now random ci) := by rw [hitem, Function.update_self]
  refine Within.mono (within_removeFromQueue hs hq' hci') ?_
  rintro _ c' ⟨hq'', hitem', hsame'⟩
  have hidx' := (hidx.update hsame hci hitem rfl).update hsame' hci' hitem' rfl
  refine ⟨_, hq'', hidx', fun b hb cb hcb => ?_⟩
  have hba : b ≠ a := fun h => hq.holds.nodup.not_mem_erase (h ▸ hb)
  rw [hitem', Function.update_of_ne hba] at hcb
  change c.item b = some cb at hcb
  rw [hitem, Function.update_of_ne hba] at hcb
  exact hload b (List.mem_of_mem_erase hb) cb hcb

/-- **`g_tree_remove`** -/
theorem wf_treeRemove (hs : w.held .stats = false) (hwf : w.cache.Wf) (file : Text) :
    Within w (treeRemove file) fun r c => c.Wf ∧ r = (w.cache.tree file).isSome ∧
      (∀ f, f ≠ file → c.tree f = w.cache.tree f) := by
  refine within_treeLookup ?_
  cases hf : w.cache.tree file with
  | none => exact within_pure ⟨hwf, rfl, fun _ _ => rfl⟩
  | some a =>
    obtain ⟨q, hq, hidx, hload⟩ := hwf
    obtain ⟨ci, hci, hfile⟩ := hidx.tree_item file a hf
    refine Within.bind (Q := fun _ c => c = { w.cache with
      tree := Function.update w.cache.tree file none, keys := w.cache.keys.erase file })
      (within_onCache rfl) ?_
    rintro _ _ rfl
    refine Within.bind (within_freeCacheItem hs (q := q) ⟨hq.holds, hq.flag, hq.length⟩
      (show _ = some ci from hci)) ?_
    rintro _ c ⟨hq', hitem, hsame⟩
    have hitem' : c.item = Function.update w.cache.item a none := hitem
    have htree : ∀ f, f ≠ file → c.tree f = w.cache.tree f := by
      intro f hne
      rw [hsame.tree]
      exact Function.update_of_ne hne _ _
    have hnone : c.tree file = none := by
      rw [hsame.tree]
      exact Function.update_self _ _ _
    have hkeys : c.keys = w.cache.keys.erase file := hsame.keys
    refine within_pure ⟨⟨_, hq', ⟨fun f b hfb => ?_, fun b cb hb => ?_, ?_, fun f => ?_, ?_⟩, ?_⟩,
      rfl, htree⟩
    · have hne : f ≠ file := by
        rintro rfl
        rw [hnone] at hfb
        exact absurd hfb (by simp)
      rw [htree f hne] at hfb
      obtain ⟨cb, hcb, hfile'⟩ := hidx.tree_item f b hfb
      have hba : b ≠ a := by
        rintro rfl
        obtain rfl := Option.some.inj (hci.symm.trans hcb)
        exact hne (hfile'.symm.trans hfile)
      exact ⟨cb, by rw [hitem', Function.update_of_ne hba, hcb], hfile'⟩
    · have hba : b ≠ a := by
        rintro rfl
        rw [hitem', Function.update_self] at hb
        exact absurd hb (by simp)
      rw [hitem', Function.update_of_ne hba] at hb
      have hfb := hidx.item_tree b cb hb
      rw [htree, hfb]
      intro heq
      rw [heq, hf] at hfb
      exact hba (Option.some.inj hfb).symm
    · rw [hkeys]
      exact hidx.keys_nodup.erase file
    · rw [hkeys, hidx.keys_nodup.mem_erase_iff, hidx.mem_keys]
      by_cases hne : f = file
      · subst hne
        simp [hnone]
      · simp [hne, htree f hne]
    · intro b hb
      have hb' : w.cache.brk ≤ b := hsame.brk ▸ hb
      rw [hitem']
      by_cases hba : b = a
      · rw [hba, Function.update_self]
      · rw [Function.update_of_ne hba]
        exact hidx.fresh b hb'
    · intro b hb cb hcb
      have hba : b ≠ a := fun h => hq.holds.nodup.not_mem_erase (h ▸ hb)
      rw [hitem', Function.update_of_ne hba] at hcb
      exact hload b (List.mem_of_mem_erase hb) cb hcb

/-- The item of a file. -/
theorem Cache.Wf.item_of_tree {c : Cache} (h : c.Wf) {file : Text} (hf : c.tree file = some a) :
    ∃ ci, c.item a = some ci ∧ ci.file = file := by
  obtain ⟨q, -, hidx, -⟩ := h
  exact hidx.tree_item file a hf

/-- **`tree_callback_flush`** adds its key at most. -/
theorem wf_treeCallbackFlush (opts : Opts) (now absTimeout : ℤ) (hs : w.held .stats = false)
    (hwf : w.cache.Wf) (key : Text) (keys : List Text) :
    Within w (treeCallbackFlush opts now absTimeout key keys) fun keys' c => c.Wf ∧
      SameIndex w.cache c ∧ (keys' = keys ∨ keys' = keys ++ [key]) := by
  have hkeep : Within w (pure keys) fun keys' c => c.Wf ∧ SameIndex w.cache c ∧
      (keys' = keys ∨ keys' = keys ++ [key]) :=
    within_pure ⟨hwf, SameIndex.refl _, .inl rfl⟩
  refine within_treeLookup ?_
  cases hf : w.cache.tree key with
  | none => exact hkeep
  | some a =>
    obtain ⟨ci, hci, hfile⟩ := hwf.item_of_tree hf
    refine within_item hci (within_get ?_)
    split_ifs with hqueued hflush hpurge
    · exact hkeep
    · refine (wf_enqueue hs hwf hci hflush.1 .tail).bind ?_
      rintro _ c ⟨hwf', hsame⟩
      exact within_pure ⟨hwf', hsame, .inl rfl⟩
    · refine within_check hfile.symm (within_ask ?_)
      split_ifs
      · exact within_pure ⟨hwf, SameIndex.refl _, .inr rfl⟩
      · exact hkeep
    · exact hkeep

/-- **`g_tree_foreach`** collects keys of the tree. -/
theorem wf_treeForeach (opts : Opts) (now absTimeout : ℤ) {w : World} (hs : w.held .stats = false)
    (hwf : w.cache.Wf) (ks keys : List Text) :
    Within w (treeForeach opts now absTimeout ks keys) fun keys' c => c.Wf ∧
      SameIndex w.cache c ∧ ∃ new, new.Sublist ks ∧ keys' = keys ++ new := by
  induction ks generalizing w keys with
  | nil => exact within_pure ⟨hwf, SameIndex.refl _, [], .slnil, by simp⟩
  | cons k ks ih =>
    refine (wf_treeCallbackFlush opts now absTimeout hs hwf k keys).bind ?_
    rintro keys' c ⟨hwf', hsame, hkeys'⟩
    refine Within.mono (ih (w := { w with cache := c }) hs hwf' keys') ?_
    rintro keys'' c' ⟨hwf'', hsame', new, hnew, rfl⟩
    refine ⟨hwf'', hsame.trans hsame', ?_⟩
    rcases hkeys' with rfl | rfl
    · exact ⟨new, hnew.cons k, rfl⟩
    · exact ⟨k :: new, hnew.cons_cons k, by simp⟩

/-- The keys that were collected are still in the tree when they are removed. -/
theorem wf_removeKeys {w : World} (hs : w.held .stats = false) (hwf : w.cache.Wf) {keys : List Text}
    (hnd : keys.Nodup) (hmem : ∀ k ∈ keys, (w.cache.tree k).isSome = true) :
    Within w (removeKeys keys) fun _ c => c.Wf := by
  induction keys generalizing w with
  | nil => exact within_pure hwf
  | cons k ks ih =>
    obtain ⟨hk, hnd⟩ := List.nodup_cons.mp hnd
    refine (wf_treeRemove hs hwf k).bind ?_
    rintro status c ⟨hwf', rfl, htree⟩
    refine within_check (hmem k List.mem_cons_self) (ih hs hwf' hnd fun k' hk' => ?_)
    show (c.tree k').isSome = true
    rw [htree k' fun h => hk (h ▸ hk')]
    exact hmem k' (List.mem_cons_of_mem k hk')

/-- **`flush_old_values`** -/
theorem wf_flushOldItems (opts : Opts) (maxAge : ℤ) (hs : w.held .stats = false)
    (hwf : w.cache.Wf) : Within w (flushOldItems opts maxAge) fun _ c => c.Wf := by
  obtain ⟨q, hq, hidx, hload⟩ := id hwf
  refine within_ask (within_get ?_)
  refine (wf_treeForeach opts _ _ hs hwf w.cache.keys []).bind ?_
  rintro keys c ⟨hwf', hsame, new, hnew, rfl⟩
  refine wf_removeKeys (w := { w with cache := c }) hs hwf' (hnew.nodup hidx.keys_nodup) fun k hk => ?_
  show (c.tree k).isSome = true
  rw [hsame.tree]
  exact (hidx.mem_keys k).mp (hnew.subset hk)

/-! ## Sections -/

/-- A thread that can take its locks, among threads that keep the cache well formed. -/
structure Free (w : World) (sock : Option Sock) : Prop where
  wf : w.cache.Wf
  rely : ∀ n c, c.Wf → (w.others n c).Wf
  cache : w.held .cache = false
  stats : w.held .stats = false
  journal : sock.isSome = true → w.held .journal = false

/-- A thread that has given back what it has taken. -/
structure Returned (w t : World) : Prop where
  wf : t.cache.Wf
  held : t.held = w.held
  others : t.others = w.others
  sys : t.sys = w.sys

variable {sock : Option Sock} {opts : Opts} {now : ℤ} {t : World}

theorem Returned.refl (h : Free w sock) : Returned w w := ⟨h.wf, rfl, rfl, rfl⟩

theorem Returned.trans {u : World} (h : Returned w t) (h' : Returned t u) : Returned w u :=
  ⟨h'.wf, h'.held.trans h.held, h'.others.trans h.others, h'.sys.trans h.sys⟩

theorem Returned.free (h : Returned w t) (hf : Free w sock) : Free t sock := by
  refine ⟨h.wf, ?_, ?_, ?_, ?_⟩
  · rw [h.others]
    exact hf.rely
  · rw [h.held]
    exact hf.cache
  · rw [h.held]
    exact hf.stats
  · rw [h.held]
    exact hf.journal

/-- The thread has got `cache_lock`. -/
def World.locked (w : World) : World :=
  { w with
    held := Function.update w.held .cache true
    cache := w.others w.acq w.cache
    acq := w.acq + 1 }

theorem wp_lock {Q : Unit → World → Prop} (hc : w.held .cache = false) (h : Q () w.locked) :
    wp (lock .cache) Q w := by
  refine wp_bind.mpr (wp_get.mpr ?_)
  rw [hc]
  exact wp_set.mpr h

/-- `cache_lock` is given back. -/
theorem wp_unlock {c : Cache} {Q : Unit → World → Prop} (hc : w.held .cache = false)
    (h : Q () { w with cache := c, acq := w.acq + 1 }) :
    wp (unlock .cache) Q { w.locked with cache := c } :=
  wp_release (w := { w with cache := c, acq := w.acq + 1 }) hc h

theorem wp_sendResponse {rc : Resp} {reply : Reply} (hwf : w.cache.Wf) :
    wp (sendResponse sock rc reply) (fun _ t => Returned w t) w := by
  refine wp_bind.mpr (wp_bind.mpr (wp_get.mpr (wp_pure.mpr ?_)))
  cases sock with
  | none => exact wp_pure.mpr ⟨hwf, rfl, rfl, rfl⟩
  | some sock =>
    by_cases hb : sock.batchStart = true ∧ rc = .ok
    · simp only [if_pos hb]
      exact wp_pure.mpr ⟨hwf, rfl, rfl, rfl⟩
    · simp only [if_neg hb]
      exact wp_bind.mpr (wp_modify.mpr (wp_pure.mpr ⟨hwf, rfl, rfl, rfl⟩))

theorem within_countStats (hs : w.held .stats = false) :
    Within w countStats fun _ c => c = w.cache :=
  within_underStats hs (within_pure rfl)

theorem within_journalAppend (hs : w.held .stats = false) (hj : w.held .journal = false) :
    Within w journalAppend fun _ c => c = w.cache := by
  have hcount : Within w (if (w.sys w.acq).fprintf then countStats else pure ())
      fun _ c => c = w.cache := by
    split_ifs
    · exact within_countStats hs
    · exact within_pure rfl
  refine within_ask ?_
  by_cases hfh : (w.sys w.acq).journalFh = true
  · rw [if_pos hfh]
    exact wp_bind.mpr (wp_take (by decide) hj (wp_bind.mpr (wp_release hj hcount)))
  · rw [if_neg hfh]
    exact within_pure rfl

/-- **The value loop** of an `UPDATE`. -/
theorem wf_valueLoop {w : World} (hwf : w.cache.Wf) {ci : CacheItem}
    (hci : w.cache.item a = some ci) (vs : List Text) (k num : ℕ) :
    Within w (valueLoop a vs k num) fun _ c => c.Wf ∧ ∃ ci, c.item a = some ci := by
  induction vs generalizing w ci k num with
  | nil => exact within_pure ⟨hwf, ci, hci⟩
  | cons v vs ih =>
    refine within_item hci ?_
    cases hstamp : valueStamp v with
    | none => exact within_pure ⟨hwf, ci, hci⟩
    | some stamp =>
      simp only
      split_ifs with hle
      · exact within_pure ⟨hwf, ci, hci⟩
      · refine (wf_modifyData hwf hci rfl rfl fun h => h).bind ?_
        rintro _ c ⟨hwf', -, hci'⟩
        refine within_ask ?_
        split_ifs
        · refine (wf_modifyData (w := { w with cache := c }) hwf' hci' rfl rfl ?_).bind ?_
          · exact fun _ => by simp
          rintro _ c' ⟨hwf'', -, hci''⟩
          exact ih hwf'' hci'' (k + 1) (num + 1)
        · exact ih hwf' hci' (k + 1) num

/-- Behind `unlock`, a response is sent. -/
theorem wp_unlock_send {c : Cache} {rc : Resp} {reply : Reply} (hc : w.held .cache = false)
    (hwf : c.Wf) :
    wp (do unlock .cache; sendResponse sock rc reply) (fun _ t => Returned w t)
      { w.locked with cache := c } := by
  refine wp_bind.mpr (wp_unlock hc (wp_mono (wp_sendResponse hwf) fun _ t ht => ?_))
  exact ⟨ht.wf, ht.held, ht.others, ht.sys⟩

/-- **The end of an `UPDATE`**, with the item of the file. -/
theorem wp_updateItem {c : Cache} {values : List Text} (hf : Free w sock) (hwf : c.Wf)
    (hci : c.item a = some ci) :
    wp (updateItem opts sock now a values) (fun _ t => Returned w t)
      { w.locked with cache := c } := by
  have hs : w.locked.held .stats = false := by simpa [World.locked] using hf.stats
  have hjournal : Within { w.locked with cache := c } (journalUnlessReplay sock) fun _ c' => c' = c := by
    rw [journalUnlessReplay]
    split_ifs with hsome
    · refine within_journalAppend hs ?_
      simpa [World.locked] using hf.journal hsome
    · exact within_pure rfl
  refine wp_bind.mpr (wp_mono hjournal fun _ _ ⟨c', ht, hc'⟩ => ?_)
  subst ht hc'
  refine wp_bind.mpr (wp_mono (wf_valueLoop (w := { w.locked with cache := c' }) hwf hci values 0 0)
    fun r _ ⟨c₁, ht, hwf₁, ci₁, hci₁⟩ => ?_)
  subst ht
  obtain ⟨_ | reply, num⟩ := r
  · have hqueue : Within { w.locked with cache := c₁ } (enqueueIfDue opts now a) fun _ c => c.Wf := by
      refine within_item hci₁ ?_
      split_ifs with hdue
      · refine Within.mono (wf_enqueue (w := { w.locked with cache := c₁ }) hs hwf₁ hci₁ hdue.2.2 .tail) ?_
        exact fun _ _ h => h.1
      · exact within_pure hwf₁
    refine wp_bind.mpr (wp_mono hqueue fun _ _ ⟨c₂, ht, hwf₂⟩ => ?_)
    subst ht
    dsimp only
    split_ifs
    · exact wp_unlock_send hf.cache hwf₂
    · exact wp_unlock_send hf.cache hwf₂
  · exact wp_unlock_send hf.cache hwf₁

theorem Free.locked_wf (hf : Free w sock) : w.locked.cache.Wf := hf.rely _ _ hf.wf

theorem Free.locked_stats (hf : Free w sock) : w.locked.held .stats = false := by
  simpa [World.locked] using hf.stats

/-- **The first section of an `UPDATE`.** Without the item it leaves the cache as it was. -/
theorem wp_updateKnown {file : Text} {values : List Text} (hf : Free w sock) :
    wp (updateKnown opts sock now file values) (fun r t =>
      ((w.others w.acq w.cache).tree file ≠ none ∧ r ≠ none ∧ Returned w t) ∨
      ((w.others w.acq w.cache).tree file = none ∧ r = none ∧
        t = { w with cache := w.others w.acq w.cache, acq := w.acq + 1 })) w := by
  refine wp_bind.mpr (wp_lock hf.cache ?_)
  have hlookup : wp (treeLookup file) (fun r t => r = (w.others w.acq w.cache).tree file ∧
      t = w.locked) w.locked := wp_bind.mpr (wp_get.mpr (wp_pure.mpr ⟨rfl, rfl⟩))
  refine wp_bind.mpr (wp_mono hlookup ?_)
  rintro _ _ ⟨rfl, rfl⟩
  cases htree : (w.others w.acq w.cache).tree file with
  | none =>
    refine wp_bind.mpr ?_
    have hend : wp (unlock .cache) (fun _ t => t = { w with
        cache := w.others w.acq w.cache, acq := w.acq + 1 }) { w.locked with
        cache := w.others w.acq w.cache } := wp_unlock hf.cache rfl
    exact wp_mono hend fun _ t ht => wp_pure.mpr (.inr ⟨rfl, rfl, ht⟩)
  | some a =>
    obtain ⟨ci, hci, -⟩ := hf.locked_wf.item_of_tree htree
    have hitem : wp (updateItem opts sock now a values) (fun _ t => Returned w t)
        { w.locked with cache := w.others w.acq w.cache } := wp_updateItem hf hf.locked_wf hci
    refine wp_bind.mpr (wp_mono hitem fun r t ht => wp_pure.mpr (.inl ⟨by simp, by simp, ht⟩))

/-- A new item is in memory; it is in no queue. -/
theorem Cache.Queued.alloc {c : Cache} (h : c.Queued q) (hidx : c.Indexed) {ci : CacheItem}
    (hflag : ci.inQueue = false) :
    (c.alloc ci).Queued q ∧ (c.alloc ci).item = Function.update c.item c.brk (some ci) := by
  have hfresh := hidx.fresh c.brk le_rfl
  have hnot : c.brk ∉ q := by
    intro hm
    obtain ⟨n, hn⟩ := h.holds.node_of_mem hm
    simp [Cache.item, hn] at hfresh
  have hitem : (c.alloc ci).item = Function.update c.item c.brk (some ci) := by
    funext b
    by_cases hb : b = c.brk
    · subst hb
      simp [Cache.item, Cache.alloc]
    · simp [Cache.item, Cache.alloc, hb]
  refine ⟨⟨h.holds.store hnot (some ci), fun b cb hb => ?_, h.length⟩, hitem⟩
  rw [hitem] at hb
  by_cases hba : b = c.brk
  · subst hba
    rw [Function.update_self] at hb
    obtain rfl := Option.some.inj hb
    simp [hflag, hnot]
  · rw [Function.update_of_ne hba] at hb
    exact h.flag b cb hb

/-- The cache after `g_tree_replace` of a new item. -/
def Cache.insert (c : Cache) (file : Text) (ci : CacheItem) : Cache :=
  { c.alloc ci with
    tree := Function.update c.tree file (some c.brk)
    keys := c.keys.orderedInsert (fun a b => strcmpLe a b = true) file }

/-- **A new item in the tree.** -/
theorem Cache.Wf.insert {c : Cache} (h : c.Wf) {file : Text} (hnew : c.tree file = none)
    {ci : CacheItem} (hflag : ci.inQueue = false) (hfile : ci.file = file) :
    (c.insert file ci).Wf ∧ (c.insert file ci).item c.brk = some ci := by
  obtain ⟨q, hq, hidx, hload⟩ := h
  obtain ⟨hq', hitem⟩ := hq.alloc hidx hflag
  have hfresh := hidx.fresh c.brk le_rfl
  have hself : (c.insert file ci).item c.brk = some ci := by
    show (c.alloc ci).item c.brk = some ci
    rw [hitem, Function.update_self]
  have hother : ∀ b, b ≠ c.brk → (c.insert file ci).item b = c.item b := by
    intro b hb
    show (c.alloc ci).item b = c.item b
    rw [hitem, Function.update_of_ne hb]
  have hperm := List.perm_orderedInsert (fun a b => strcmpLe a b = true) file c.keys
  have hnotin : file ∉ c.keys := by
    rw [hidx.mem_keys, hnew]
    simp
  refine ⟨⟨q, ⟨hq'.holds, hq'.flag, hq'.length⟩, ⟨fun f b hf => ?_, fun b cb hb => ?_, ?_,
    fun f => ?_, fun b hb => ?_⟩, fun b hb cb hcb => ?_⟩, hself⟩
  · by_cases hff : f = file
    · subst hff
      obtain rfl : c.brk = b := by simpa [Cache.insert] using hf
      exact ⟨ci, hself, hfile⟩
    · have hf' : c.tree f = some b := by simpa [Cache.insert, hff] using hf
      obtain ⟨cb, hcb, hfb⟩ := hidx.tree_item f b hf'
      have hb : b ≠ c.brk := by
        rintro rfl
        rw [hfresh] at hcb
        exact absurd hcb (by simp)
      exact ⟨cb, (hother b hb).trans hcb, hfb⟩
  · by_cases hbb : b = c.brk
    · subst hbb
      obtain rfl := Option.some.inj (hself.symm.trans hb)
      simp [Cache.insert, hfile]
    · rw [hother b hbb] at hb
      have hcb := hidx.item_tree b cb hb
      have hne : cb.file ≠ file := by
        intro heq
        rw [heq, hnew] at hcb
        exact absurd hcb (by simp)
      simpa [Cache.insert, hne] using hcb
  · exact hperm.nodup_iff.mpr (List.nodup_cons.mpr ⟨hnotin, hidx.keys_nodup⟩)
  · show f ∈ c.keys.orderedInsert _ file ↔ _
    rw [hperm.mem_iff, List.mem_cons, hidx.mem_keys]
    by_cases hff : f = file
    · subst hff
      simp [Cache.insert]
    · simp [Cache.insert, hff]
  · have hb' : c.brk + 1 ≤ b := hb
    rw [hother b (by omega)]
    exact hidx.fresh b (by omega)
  · have hbb : b ≠ c.brk := by
      rintro rfl
      obtain ⟨n, hn⟩ := hq.holds.node_of_mem hb
      simp [Cache.item, hn] at hfresh
    rw [hother b hbb] at hcb
    exact hload b hb cb hcb

/-- A new item that is not needed is freed. -/
theorem within_freeNew {ci : CacheItem} (hs : w.held .stats = false) (hwf : w.cache.Wf)
    (hflag : ci.inQueue = false) :
    Within { w with cache := w.cache.alloc ci } (freeCacheItem w.cache.brk) fun _ c => c.Wf ∧
      c.item = w.cache.item ∧ c.tree = w.cache.tree ∧ c.mode = w.cache.mode := by
  obtain ⟨q, hq, hidx, hload⟩ := hwf
  obtain ⟨hq', hitem⟩ := hq.alloc hidx hflag
  have hfresh := hidx.fresh w.cache.brk le_rfl
  have hnot : w.cache.brk ∉ q := by
    intro hm
    obtain ⟨n, hn⟩ := hq.holds.node_of_mem hm
    simp [Cache.item, hn] at hfresh
  have hself : (w.cache.alloc ci).item w.cache.brk = some ci := by rw [hitem, Function.update_self]
  refine Within.mono (within_freeCacheItem (w := { w with cache := w.cache.alloc ci }) hs hq' hself) ?_
  rintro _ c ⟨hq'', hitem', hsame⟩
  rw [List.erase_of_not_mem hnot] at hq''
  have hsame' : c.item = w.cache.item := by
    rw [hitem']
    show Function.update (w.cache.alloc ci).item _ none = _
    rw [hitem, Function.update_idem, ← hfresh, Function.update_eq_self]
  have htree : c.tree = w.cache.tree := hsame.tree
  have hkeys : c.keys = w.cache.keys := hsame.keys
  refine ⟨⟨q, hq'', ⟨?_, ?_, ?_, ?_, fun b hb => ?_⟩, ?_⟩, hsame', htree, hsame.mode⟩
  · rw [htree, hsame']
    exact hidx.tree_item
  · rw [htree, hsame']
    exact hidx.item_tree
  · rw [hkeys]
    exact hidx.keys_nodup
  · rw [hkeys, htree]
    exact hidx.mem_keys
  · have hbrk : c.brk = w.cache.brk + 1 := hsame.brk
    rw [hsame']
    exact hidx.fresh b (by omega)
  · intro b hb cb hcb
    rw [hsame'] at hcb
    exact hload b hb cb hcb

/-- **The second section of an `UPDATE`.** It keeps `cache_lock` when the daemon shuts down. -/
theorem wp_updateNew {file : Text} {values : List Text} (hf : Free w sock) :
    wp (updateNew opts sock now file values) (fun _ t =>
      ((w.others w.acq w.cache).mode = .shutdown ∧ t.cache.Wf ∧
        t.held = Function.update w.held .cache true ∧ t.others = w.others ∧ t.sys = w.sys) ∨
      ((w.others w.acq w.cache).mode ≠ .shutdown ∧ Returned w t)) w := by
  refine wp_bind.mpr (wp_bind.mpr (wp_get.mpr (wp_pure.mpr ?_)))
  refine wp_bind.mpr (wp_lock hf.cache ?_)
  generalize hnew : newCacheItem opts now (w.sys w.acq).random file = new
  have hflag : new.inQueue = false := by rw [← hnew]; rfl
  have hfile : new.file = file := by rw [← hnew]; rfl
  have hwf := hf.locked_wf
  have hmalloc : wp (malloc new) (fun a t => a = w.locked.cache.brk ∧
      t = { w.locked with cache := w.locked.cache.alloc new }) w.locked :=
    wp_bind.mpr (wp_get.mpr (wp_bind.mpr (wp_modify.mpr (wp_pure.mpr ⟨rfl, rfl⟩))))
  refine wp_bind.mpr (wp_mono hmalloc ?_)
  rintro _ _ ⟨rfl, rfl⟩
  refine wp_bind.mpr (wp_bind.mpr (wp_get.mpr (wp_pure.mpr ?_)))
  have htree : (w.locked.cache.alloc new).tree file = w.locked.cache.tree file := rfl
  rw [htree]
  cases hknown : w.locked.cache.tree file with
  | none =>
    obtain ⟨hwf', hci⟩ := hwf.insert hknown hflag hfile
    refine wp_bind.mpr (wp_modify.mpr (wp_bind.mpr (wp_get.mpr ?_)))
    have hmode : (w.locked.cache.insert file new).mode = (w.others w.acq w.cache).mode := rfl
    split_ifs with hdown
    · exact wp_pure.mpr (.inl ⟨hdown, hwf', rfl, rfl, rfl⟩)
    · exact wp_mono (wp_updateItem (c := w.locked.cache.insert file new) hf hwf' hci)
        fun _ t ht => .inr ⟨hdown, ht⟩
  | some tmp =>
    obtain ⟨ci, hci, -⟩ := hwf.item_of_tree hknown
    refine wp_bind.mpr (wp_mono (within_freeNew hf.locked_stats hwf hflag) ?_)
    rintro _ _ ⟨c, rfl, hwf', hitem, -, hmode⟩
    refine wp_bind.mpr (wp_get.mpr ?_)
    have hmode' : c.mode = (w.others w.acq w.cache).mode := hmode
    dsimp only
    rw [hmode']
    split_ifs with hdown
    · exact wp_pure.mpr (.inl ⟨hdown, hwf', rfl, rfl, rfl⟩)
    · have hci' : c.item tmp = some ci := by rw [hitem, hci]
      exact wp_mono (wp_updateItem hf hwf' hci') fun _ t ht => .inr ⟨hdown, ht⟩

theorem wp_item {ci : CacheItem} (hci : w.cache.item a = some ci) :
    wp (item a) (fun r t => r = ci ∧ t = w) w := by
  obtain ⟨n, hn, rfl⟩ := Option.map_eq_some_iff.mp hci
  refine wp_bind.mpr (wp_get.mpr ?_)
  rw [hn]
  exact wp_pure.mpr ⟨rfl, rfl⟩

theorem wp_flushSection (maxAge : ℤ) (hf : Free w sock) :
    wp (flushSection opts maxAge) (fun _ t => Returned w t) w := by
  refine wp_bind.mpr (wp_lock hf.cache (wp_bind.mpr ?_))
  refine wp_mono (wf_flushOldItems opts maxAge hf.locked_stats hf.locked_wf) ?_
  rintro _ _ ⟨c, rfl, hwf⟩
  exact wp_unlock hf.cache ⟨hwf, rfl, rfl, rfl⟩

theorem wp_forgetSection (file : Text) (hf : Free w sock) :
    wp (forgetSection file) (fun _ t => Returned w t) w := by
  refine wp_bind.mpr (wp_lock hf.cache (wp_bind.mpr ?_))
  refine wp_mono (wf_treeRemove hf.locked_stats hf.locked_wf file) ?_
  rintro r _ ⟨c, rfl, hwf, -⟩
  exact wp_bind.mpr (wp_unlock hf.cache (wp_pure.mpr ⟨hwf, rfl, rfl, rfl⟩))

theorem wp_flushStart (file : Text) (hf : Free w sock) :
    wp (flushStart file) (fun _ t => Returned w t) w := by
  refine wp_bind.mpr (wp_lock hf.cache ?_)
  refine wp_bind.mpr (wp_bind.mpr (wp_get.mpr (wp_pure.mpr ?_)))
  have hend : ∀ c : Cache, c.Wf → ∀ r : Option Bool, wp (do unlock .cache; pure r)
      (fun _ t => Returned w t) { w.locked with cache := c } := fun c hwf r =>
    wp_bind.mpr (wp_unlock hf.cache (wp_pure.mpr ⟨hwf, rfl, rfl, rfl⟩))
  cases htree : w.locked.cache.tree file with
  | none => exact hend _ hf.locked_wf none
  | some a =>
    obtain ⟨ci, hci, -⟩ := hf.locked_wf.item_of_tree htree
    refine wp_bind.mpr (wp_mono (wp_item hci) ?_)
    rintro _ _ ⟨rfl, rfl⟩
    split_ifs with hv
    · refine wp_bind.mpr (wp_mono (wf_enqueue hf.locked_stats hf.locked_wf hci hv .head) ?_)
      rintro _ _ ⟨c, rfl, hwf, -⟩
      exact hend c hwf (some true)
    · exact hend _ hf.locked_wf (some false)

theorem wp_handleRequestWrote (buffer : Text) (hf : Free w sock) :
    wp (handleRequestWrote opts now buffer) (fun _ t => Returned w t) w := by
  refine wp_bind.mpr (wp_lock hf.cache ?_)
  refine wp_bind.mpr (wp_bind.mpr (wp_get.mpr (wp_pure.mpr ?_)))
  cases htree : w.locked.cache.tree (cstr buffer) with
  | none =>
    exact wp_bind.mpr (wp_unlock (c := w.locked.cache) hf.cache
      (wp_pure.mpr ⟨hf.locked_wf, rfl, rfl, rfl⟩))
  | some a =>
    obtain ⟨ci, hci, -⟩ := hf.locked_wf.item_of_tree htree
    refine wp_bind.mpr (wp_bind.mpr (wp_get.mpr (wp_pure.mpr (wp_bind.mpr ?_))))
    refine wp_mono (wf_dropValues hf.locked_stats hf.locked_wf hci) ?_
    rintro _ _ ⟨c, rfl, hwf⟩
    exact wp_bind.mpr (wp_unlock hf.cache (wp_pure.mpr ⟨hwf, rfl, rfl, rfl⟩))

/-- **A queue thread** finds an item with values at the head of the queue. -/
theorem wp_takeSection (hf : Free w sock) :
    wp (takeSection opts) (fun _ t => Returned w t) w := by
  refine wp_bind.mpr (wp_lock hf.cache (wp_bind.mpr (wp_get.mpr ?_)))
  have hend : ∀ c : Cache, c.Wf → wp (unlock .cache) (fun _ t => Returned w t)
      { w.locked with cache := c } := fun c hwf => wp_unlock hf.cache ⟨hwf, rfl, rfl, rfl⟩
  have hwf := hf.locked_wf
  obtain ⟨q, hq, hidx, hload⟩ := id hwf
  cases hhead : w.locked.cache.mem.head with
  | none => exact hend _ hwf
  | some a =>
    have hmem : a ∈ q := List.mem_of_head? (hq.holds.head.symm.trans hhead)
    obtain ⟨n, hn⟩ := hq.holds.node_of_mem hmem
    have hci : w.locked.cache.item a = some n.data := by simp [Cache.item, hn]
    refine wp_bind.mpr (wp_mono (wp_item hci) ?_)
    rintro _ _ ⟨rfl, rfl⟩
    refine wp_bind.mpr (wp_bind.mpr (wp_get.mpr (wp_pure.mpr ?_)))
    split_ifs
    · exact hend _ hwf
    · rw [check, if_pos (hload a hmem _ hci)]
      refine wp_bind.mpr (wp_pure.mpr (wp_bind.mpr ?_))
      refine wp_mono (wf_dropValues hf.locked_stats hwf hci) ?_
      rintro _ _ ⟨c, rfl, hwf'⟩
      exact hend c hwf'

/-! ## Any order of sections -/

/-- What the threads do while they hold `cache_lock`, and the changes of `state`. -/
inductive Section : Type where
  /-- `handle_request_update`, the first section -/
  | update (sock : Option Sock) (now : ℤ) (file : Text) (values : List Text) : Section
  /-- `handle_request_update`, the second section -/
  | insert (sock : Option Sock) (now : ℤ) (file : Text) (values : List Text) : Section
  /-- `flush_file` up to the wait -/
  | flush (file : Text) : Section
  /-- `flush_old_values`, of `FLUSHALL` and of the flush thread -/
  | flushOld (maxAge : ℤ) : Section
  /-- `handle_request_forget` -/
  | forget (file : Text) : Section
  /-- `handle_request_wrote` -/
  | wrote (now : ℤ) (buffer : Text) : Section
  /-- a queue thread detaches the values of the head of the queue -/
  | take : Section
  /-- `state` changes -/
  | setMode (mode : Mode) : Section

/-- The program of a section. -/
def Section.prog (opts : Opts) : Section → Thr Unit
  | .update sock now file values => do
    let _ ← updateKnown opts sock now file values
    pure ()
  | .insert sock now file values => do
    let _ ← updateNew opts sock now file values
    pure ()
  | .flush file => do
    let _ ← flushStart file
    pure ()
  | .flushOld maxAge => flushSection opts maxAge
  | .forget file => do
    let _ ← forgetSection file
    pure ()
  | .wrote now buffer => do
    let _ ← handleRequestWrote opts now buffer
    pure ()
  | .take => takeSection opts
  | .setMode mode => onCache fun c => { c with mode := mode }

/-- A thread that holds no lock, and that no other thread comes in between. -/
def World.alone (c : Cache) (sys : Sys) : World :=
  ⟨c, fun _ => false, fun _ c => c, 0, fun _ => sys, []⟩

/-- The cache after a section. -/
def sectionStep (opts : Opts) (c : Cache) (s : Section × Sys) : Except Fault Cache :=
  (s.1.prog opts (.alone c s.2)).map fun r => r.2.cache

/-- The cache after sections of any threads, in the order in which they get `cache_lock`. -/
def runSections (opts : Opts) : Cache → List (Section × Sys) → Except Fault Cache
  | c, [] => .ok c
  | c, s :: ss => (sectionStep opts c s).bind fun c => runSections opts c ss

/-- The cache at the start. -/
def Cache.init : Cache := ⟨⟨fun _ => none, none, none⟩, 0, fun _ => none, [], 0, .running⟩

/-- **The queue is consistent**: following `next` from the head one comes through the same items as
following `prev` from the tail, once each; they are the items with the flag, as many as the counter
says, and every one of them is in the tree and has values. -/
def Cache.QueueConsistent (c : Cache) : Prop :=
  ∃ q : List ℕ, Dll.Follows c.mem.next c.mem.head q ∧ Dll.Follows c.mem.prev c.mem.tail q.reverse ∧
    q.Nodup ∧ (∀ a ci, c.item a = some ci → (ci.inQueue = true ↔ a ∈ q)) ∧
    c.queueLength = q.length ∧
    ∀ a ∈ q, ∃ ci, c.item a = some ci ∧ c.tree ci.file = some a ∧ 0 < ci.values.length

theorem Cache.Wf.queueConsistent {c : Cache} (h : c.Wf) : c.QueueConsistent := by
  obtain ⟨q, hq, hidx, hload⟩ := h
  refine ⟨q, hq.holds.follows_next, hq.holds.follows_prev, hq.holds.nodup, hq.flag, hq.length,
    fun a ha => ?_⟩
  obtain ⟨n, hn⟩ := hq.holds.node_of_mem ha
  have hci : c.item a = some n.data := by simp [Cache.item, hn]
  exact ⟨n.data, hci, hidx.item_tree a _ hci, List.length_pos_of_ne_nil (hload a ha _ hci)⟩

theorem init_wf : Cache.init.Wf := by
  refine ⟨[], ⟨⟨.nil, rfl, rfl, trivial, ?_⟩, ?_, rfl⟩, ⟨?_, ?_, .nil, ?_, ?_⟩, ?_⟩
  · exact fun a n hn => absurd hn (by simp [Cache.init])
  · exact fun a ci hci => absurd hci (by simp [Cache.init, Cache.item])
  · exact fun f a hf => absurd hf (by simp [Cache.init])
  · exact fun a ci hci => absurd hci (by simp [Cache.init, Cache.item])
  · exact fun f => by simp [Cache.init]
  · exact fun a _ => rfl
  · exact fun a ha => absurd ha List.not_mem_nil

theorem alone_free {c : Cache} (h : c.Wf) (sys : Sys) (sock : Option Sock) :
    Free (.alone c sys) sock :=
  ⟨h, fun _ _ h => h, rfl, rfl, fun _ => rfl⟩

/-- **One section**: no fault, and the cache stays well formed. -/
theorem sectionStep_wf (opts : Opts) {c : Cache} (h : c.Wf) (s : Section × Sys) :
    ∃ c', sectionStep opts c s = .ok c' ∧ c'.Wf := by
  obtain ⟨s, sys⟩ := s
  have hfree := alone_free h sys
  have hprog : wp (s.prog opts) (fun _ t => t.cache.Wf) (.alone c sys) := by
    cases s with
    | update sock now file values =>
      refine wp_bind.mpr (wp_mono (wp_updateKnown (hfree sock)) ?_)
      rintro r t (⟨-, -, ht⟩ | ⟨-, -, rfl⟩)
      · exact wp_pure.mpr ht.wf
      · exact wp_pure.mpr h
    | insert sock now file values =>
      refine wp_bind.mpr (wp_mono (wp_updateNew (hfree sock)) ?_)
      rintro r t (⟨-, hwf, -⟩ | ⟨-, ht⟩)
      · exact wp_pure.mpr hwf
      · exact wp_pure.mpr ht.wf
    | flush file =>
      exact wp_bind.mpr (wp_mono (wp_flushStart file (hfree none)) fun _ t ht => wp_pure.mpr ht.wf)
    | flushOld maxAge => exact wp_mono (wp_flushSection maxAge (hfree none)) fun _ t ht => ht.wf
    | forget file =>
      exact wp_bind.mpr (wp_mono (wp_forgetSection file (hfree none)) fun _ t ht => wp_pure.mpr ht.wf)
    | wrote now buffer =>
      exact wp_bind.mpr (wp_mono (wp_handleRequestWrote buffer (hfree none))
        fun _ t ht => wp_pure.mpr ht.wf)
    | take => exact wp_mono (wp_takeSection (hfree none)) fun _ t ht => ht.wf
    | setMode mode =>
      obtain ⟨q, hq, hidx, hload⟩ := h
      exact wp_modify.mpr ⟨q, ⟨hq.holds, hq.flag, hq.length⟩, ⟨hidx.tree_item, hidx.item_tree,
        hidx.keys_nodup, hidx.mem_keys, hidx.fresh⟩, hload⟩
  obtain ⟨a, t, ht, hwf⟩ := hprog
  exact ⟨t.cache, by rw [sectionStep, ht]; rfl, hwf⟩

/-- **Any number of sections.** -/
theorem runSections_wf (opts : Opts) {c : Cache} (h : c.Wf) (ss : List (Section × Sys)) :
    ∃ c', runSections opts c ss = .ok c' ∧ c'.Wf := by
  induction ss generalizing c with
  | nil => exact ⟨c, rfl, h⟩
  | cons s ss ih =>
    obtain ⟨c₁, hstep, hc₁⟩ := sectionStep_wf opts h s
    obtain ⟨c₂, hrest, hc₂⟩ := ih hc₁
    exact ⟨c₂, by rw [runSections, hstep]; exact hrest, hc₂⟩

/-- **The queue invariant**: whatever sections are executed, in whatever order, no assertion fails,
no dangling pointer is followed, and the queue is consistent. -/
theorem queue_invariant (opts : Opts) (ss : List (Section × Sys)) :
    ∃ c, runSections opts .init ss = .ok c ∧ c.QueueConsistent := by
  obtain ⟨c, hc, hwf⟩ := runSections_wf opts init_wf ss
  exact ⟨c, hc, hwf.queueConsistent⟩

end Rrdtool.Daemon

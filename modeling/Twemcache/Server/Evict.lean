import Twemcache.Store.Evict
import Twemcache.Server.Ownership

/-!
# Eviction, in a running server

`item_alloc` is called when a storage command begins, and by `item_annex` and `item_delta` after
they have looked the old item up.  Wherever it is called, it makes visible keys invisible only under
pressure and only as `evict_opt` says (`evicts_as_configured`).

The items that it takes are unreferenced as far as their counts say.  A count of 65536 references
says zero, and lru eviction then takes an item that is being sent (`evicts_held`).
-/

namespace Twemcache

namespace Server

variable {cfg : Config} {now evictOpt : ℕ} {slabs : ℕ → Slab} {items : ItemPtr → Item} {s : Server}
  {t : Store} {held : List ItemPtr} {id : ℕ}

/-- Where `item_alloc` is called: the store, and the references that are outstanding. -/
inductive Calls (cfg : Config) (s : Server) : Store → List ItemPtr → Prop
  /-- At the beginning of a storage command. -/
  | command : Calls cfg s s.store s.held
  /-- After an item was looked up, in the same step. -/
  | lookup {t : Store} {key : Key} {p : ItemPtr} (hget : s.store.itemGet cfg key = (some p, t))
      (hov : t.overflow = false) : Calls cfg s t (p :: s.held)

theorem Inv.calls (h : s.Inv cfg) (hc : Calls cfg s t held) : t.Inv cfg held := by
  cases hc with
  | command => exact h.inv
  | @lookup _ key p hget hov =>
    have hg := h.guarded (.get 0 key) none
    exact ((hg.get_some hget).1 (.inl hov)).guarded hg |>.toInv

/-- **Eviction only under pressure, and only as configured.**  As long as no slab has more than
65535 references, in every reachable state, wherever `item_alloc` is called: a visible key becomes
invisible only if the class has no chunk to hand out, its free queue is empty or not used and no
slab can be allocated; the lost keys are then those of one idle slab, by a slab strategy, or that of
one item of the class that nobody references, by lru eviction; and with `evict_opt` zero none is
lost. -/
theorem evicts_as_configured (h : (server cfg).Reaches NoWrap (init cfg now evictOpt slabs items) s)
    (hc : Calls cfg s t held) (hid : cfg.ValidId id) (ch : Choice) (key : Key)
    (dataflags exptime nbyte : ℕ) :
    Store.Sheds cfg ch held id t (t.itemAlloc cfg ch id key dataflags exptime nbyte).2 :=
  ((inv_of_reaches h).calls hc).sheds hid ch key dataflags exptime nbyte

/-- `a` and `b` are stored, and fill the small heap. -/
def fullRun : List Label :=
  storeRun ++ [.alloc 0 [98] 0 0 1 {}, .fill 0 0 [121, 13, 10], .set 0 {}, .removeItem 0]

/-- The small server after `fullRun`. -/
def tinyFull : Server :=
  (server .tiny).exec (fun s l s' => decide (NoWrap s l s')) (.tiny evictLru) fullRun

theorem reaches_full : (server .tiny).Reaches NoWrap (.tiny evictLru) tinyFull :=
  (Machine.reaches_exec (by decide +kernel)).mono fun _ _ _ => of_decide_eq_true

theorem evicts_as_configured_full : (server .tiny).Reaches NoWrap (.tiny evictLru) tinyFull ∧
    Store.Lost .tiny tinyFull.store (tinyFull.store.itemAlloc .tiny {} 1 [99] 0 0 1).2 [97] ∧
    Store.Sheds .tiny {} tinyFull.held 1 tinyFull.store
      (tinyFull.store.itemAlloc .tiny {} 1 [99] 0 0 1).2 :=
  ⟨reaches_full, ⟨by decide +kernel, by decide +kernel⟩,
    evicts_as_configured reaches_full .command ⟨by decide, by decide⟩ {} [99] 0 0 1⟩

/-- The full store, after `a` was read 65536 times. -/
def pinnedStore : Store := acquired tinyFull.store ⟨0, 0⟩ 65536

/-- The heap is full, and a connection that names `a` 65536 times in one request holds `a`.  The
next item takes its chunk. -/
theorem evicts_held : ∃ s : Server, (server .tiny).Reaches Machine.Unguarded (.tiny evictLru) s ∧
    ¬ Store.Sheds .tiny {} s.held 1 s.store (s.store.itemAlloc .tiny {} 1 [99] 0 0 1).2 := by
  have hgets := reaches_gets .tiny (s := tinyFull) [97] (p := ⟨0, 0⟩) 1 (by decide +kernel)
    (by decide +kernel) (by decide +kernel) (by decide +kernel) (by decide +kernel) 65536
  have hreach := (reaches_full.mono fun _ _ _ _ => trivial).trans hgets
  refine ⟨_, hreach, fun hsheds => ?_⟩
  have hlost : Store.Lost .tiny pinnedStore (pinnedStore.itemAlloc .tiny {} 1 [99] 0 0 1).2 [97] :=
    ⟨by decide +kernel, by decide +kernel⟩
  have hvisible : pinnedStore.visible .tiny [97] = some ⟨0, 0⟩ := by decide +kernel
  obtain ⟨hopt, -⟩ | ⟨-, p, -, hheld, hkeys⟩ := hsheds.configured ⟨[97], hlost⟩
  · have hzero : pinnedStore.evictOpt &&& (evictRs ||| evictAs ||| evictCs) = 0 := by decide +kernel
    exact hopt hzero
  · obtain rfl := Option.some.inj (hvisible.symm.trans ((hkeys [97]).1 hlost))
    refine hheld (List.mem_map.2 ⟨⟨1, .ilist, ⟨0, 0⟩⟩, List.mem_append_left _ ?_, rfl⟩)
    exact List.mem_replicate.2 ⟨by decide, rfl⟩

end Server

end Twemcache

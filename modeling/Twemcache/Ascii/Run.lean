import Twemcache.Ascii.Request

/-!
# Running handlers

What the parts of handlers do, as equations: how a handler goes on after each of its parts, and what
the checks and the fields of a request come to.
-/

namespace Twemcache

namespace Handler

variable {α β : Type}

/-- What a handler does in a state. -/
def on (x : Handler α) (a : Asc) : Except Rsp α × Asc := x.run.run a

variable {x : Handler α} {g : α → Handler β} {a a' : Asc} {v : α} {r : Rsp}

@[simp] theorem on_pure (v : α) (a : Asc) : (pure v : Handler α).on a = (.ok v, a) := rfl

@[simp] theorem on_throw (r : Rsp) (a : Asc) : (throw r : Handler α).on a = (.error r, a) := rfl

@[simp] theorem on_get (a : Asc) : (get : Handler Asc).on a = (.ok a, a) := rfl

@[simp] theorem on_modify (f : Asc → Asc) (a : Asc) :
    (modify f : Handler Unit).on a = (.ok (), f a) :=
  rfl

/-- After a part that succeeds the handler goes on. -/
theorem on_bind_ok (h : x.on a = (.ok v, a')) : (x >>= g).on a = (g v).on a' := by
  simp only [on, ExceptT.run_bind, StateT.run_bind] at h ⊢
  change (match x.run.run a with | (r, a) => _) = _
  rw [h]
  rfl

/-- A part that fails ends the handler. -/
theorem on_bind_error (h : x.on a = (.error r, a')) : (x >>= g).on a = (.error r, a') := by
  simp only [on, ExceptT.run_bind, StateT.run_bind] at h ⊢
  change (match x.run.run a with | (r, a) => _) = _
  rw [h]
  rfl

@[simp] theorem on_map (f : α → β) (x : Handler α) (a : Asc) :
    (f <$> x).on a = ((x.on a).1.map f, (x.on a).2) := by
  rw [map_eq_pure_bind]
  rcases h : x.on a with ⟨r | v, a'⟩
  · rw [on_bind_error h]
    rfl
  · rw [on_bind_ok h]
    rfl

end Handler

open Handler

variable {cfg : Config} {set : Settings} {type : ReqType} {f : Frame} {a : Asc} {α β : Type}

/-- An access is added to the record. -/
def Asc.used (a : Asc) (f : Frame) (i : ℕ) :
    Asc := { a with uses := a.uses ++ [⟨i, f.ntoken, true⟩] }

@[simp] theorem Asc.used_noreply (i : ℕ) : (a.used f i).noreply = a.noreply := rfl

theorem on_word (i : ℕ) : (f.word i).on a = (.ok (f.elem i), a.used f i) := rfl

/-- The last word of the request is `noreply`. -/
def Frame.lastIsNoreply (f : Frame) : Bool := (f.elem (f.ntoken - 2)).equals "noreply"

/-- The connection after `asc_set_noreply_maybe`. -/
def Asc.noreplyMaybe (a : Asc) (f : Frame) : Asc :=
  { a.used f (f.ntoken - 2) with noreply := a.noreply || f.lastIsNoreply }

@[simp] theorem Asc.noreplyMaybe_noreply :
    (a.noreplyMaybe f).noreply = (a.noreply || f.lastIsNoreply) := rfl

theorem on_ascSetNoreplyMaybe (h : 2 ≤ f.ntoken) :
    (ascSetNoreplyMaybe f).on a = (.ok (), a.noreplyMaybe f) := by
  unfold ascSetNoreplyMaybe
  rw [if_neg (by omega), on_bind_ok (on_word _)]
  by_cases hlast : f.lastIsNoreply = true
  · have hequals : (f.elem (f.ntoken - 2)).equals "noreply" = true := hlast
    rw [if_pos hequals, on_modify]
    simp [Asc.noreplyMaybe, hlast]
  · have hequals : (f.elem (f.ntoken - 2)).equals "noreply" = false := Bool.not_eq_true _ ▸ hlast
    rw [if_neg (by simp [hequals]), on_pure]
    simp [Asc.noreplyMaybe, hlast, Asc.used]

/-- The number of tokens is one of those that the table has. -/
def Frame.Bounded (f : Frame) (type : ReqType) (noreply : Bool) : Prop :=
  (ntokenBound type noreply).1 ≤ f.ntoken ∧ f.ntoken ≤ (ntokenBound type noreply).2

instance (type : ReqType) (noreply : Bool) : Decidable (f.Bounded type noreply) :=
  inferInstanceAs (Decidable (_ ∧ _))

theorem on_ascValidateNtoken : (ascValidateNtoken type f).on a =
    if f.Bounded type a.noreply then (.ok (), a) else (.error .clientError, a) := by
  unfold ascValidateNtoken
  rw [on_bind_ok (on_get a)]
  by_cases h : f.Bounded type a.noreply
  · rw [if_pos h, if_neg (by simpa [Frame.Bounded] using h), on_pure]
  · rw [if_neg h, if_pos (by simpa [Frame.Bounded] using h), on_throw]

theorem on_ascGetKey :
    (ascGetKey f).on a = (if (f.elem tokenKey).len > keyMaxLen then .error .clientError
    else .ok (f.elem tokenKey).text, a.used f tokenKey) := by
  unfold ascGetKey
  rw [on_bind_ok (on_word _)]
  by_cases h : (f.elem tokenKey).len > keyMaxLen
  · rw [if_pos h, if_pos h, on_bind_error (on_throw _ _)]
  · rw [if_neg h, if_neg h]
    rfl

theorem on_ascGetField (i : ℕ) (parse : List UInt8 → Option α) : (ascGetField f i parse).on a =
    ((parse (f.elem i).str).elim (.error .clientError) .ok, a.used f i) := by
  unfold ascGetField
  rw [on_bind_ok (on_word _)]
  cases parse (f.elem i).str <;> rfl

theorem on_ascGetSlabid (nkey vlen : ℕ) : (ascGetSlabid cfg nkey vlen).on a =
    (if itemSlabid cfg nkey vlen = slabclassInvalidId then .error .clientError else .ok (), a) := by
  unfold ascGetSlabid
  split_ifs <;> rfl

/-! ### Storage commands -/

/-- The key, if it is not too long. -/
def Frame.keyField (f : Frame) : Option Key :=
  if (f.elem tokenKey).len > keyMaxLen then none else some (f.elem tokenKey).text

/-- Whether there is a slab class for an item. -/
def slabField (cfg : Config) (nkey vlen : ℕ) : Option Unit :=
  if itemSlabid cfg nkey vlen = slabclassInvalidId then none else some ()

/-- The cas id, which is a field of `cas` only. -/
def Frame.casField (type : ReqType) (f : Frame) : Option (Option ℕ) :=
  if type = .cas then (mcStrtoull (f.elem tokenCas).str).map some else some none

/-- The fields of `set`, `add`, `replace` and `cas` as their handler reads them; `none` if it finds
one of them bad, or no slab class for the item. -/
def Frame.updateFields (cfg : Config) (type : ReqType) (f : Frame) :
    Option (Key × ℕ × ℤ × ℕ × Option ℕ) :=
  f.keyField.bind fun key =>
  (mcStrtoul (f.elem tokenFlags).str).bind fun flags =>
  (mcStrtol (f.elem tokenExpiry).str).bind fun exptime =>
  (mcStrtoul (f.elem tokenVlen).str).bind fun vlen =>
  (slabField cfg key.length vlen).bind fun _ =>
  (f.casField type).map fun casId => (key, flags, exptime, vlen, casId)

/-- The fields of `append`, `prepend`, `appendrl` and `prependrl` as their handler reads them. -/
def Frame.annexFields (cfg : Config) (f : Frame) : Option (Key × ℕ) :=
  f.keyField.bind fun key =>
  (mcStrtoul (f.elem tokenVlen).str).bind fun vlen =>
  (slabField cfg key.length vlen).map fun _ => (key, vlen)

/-- A handler gives `x`, or the reply for a client error, and sets `noreply` as it finds it. -/
def Gives (x : Handler Command) (a : Asc) (noreply : Bool) (cmd : Option Command) : Prop :=
  ∃ uses, x.on a = (cmd.elim (.error .clientError) .ok, ⟨noreply, uses⟩)

theorem Gives.part {x : Handler α} {g : α → Handler Command} {noreply : Bool} {cmd : Option Command}
    {v : Option α} {b : Asc} (hx : x.on a = (v.elim (.error .clientError) .ok, b))
    (hnone : v = none → b.noreply = noreply ∧ cmd = none)
    (hsome : ∀ y, v = some y → Gives (g y) b noreply cmd) : Gives (x >>= g) a noreply cmd := by
  cases v with
  | none =>
    obtain ⟨hnr, hcmd⟩ := hnone rfl
    exact ⟨b.uses, by rw [on_bind_error hx, hcmd, ← hnr]; rfl⟩
  | some y =>
    obtain ⟨uses, h⟩ := hsome y rfl
    exact ⟨uses, by rw [on_bind_ok hx, h]⟩

/-- The checks at the start of a handler. -/
theorem Gives.checks {g : Handler Command} {cmd : Option Command} (h : 2 ≤ f.ntoken)
    (hg : f.Bounded type (a.noreply || f.lastIsNoreply) → ∀ a' : Asc,
      a'.noreply = (a.noreply || f.lastIsNoreply) →
      Gives g a' (a.noreply || f.lastIsNoreply) cmd) :
    Gives (do ascSetNoreplyMaybe f; ascValidateNtoken type f; g) a (a.noreply || f.lastIsNoreply)
      (if f.Bounded type (a.noreply || f.lastIsNoreply) then cmd else none) := by
  refine .part (v := some ()) (on_ascSetNoreplyMaybe h) nofun fun _ _ => ?_
  by_cases hb : f.Bounded type (a.noreply || f.lastIsNoreply)
  · rw [if_pos hb]
    refine .part (v := some ())
      (by rw [on_ascValidateNtoken, Asc.noreplyMaybe_noreply, if_pos hb]; rfl) nofun fun _ _ => ?_
    exact hg hb _ rfl
  · rw [if_neg hb]
    exact .part (v := none) (by rw [on_ascValidateNtoken, Asc.noreplyMaybe_noreply, if_neg hb]; rfl)
      (fun _ => ⟨rfl, rfl⟩) nofun

theorem on_keyField (f : Frame) (a : Asc) : (ascGetKey f).on a =
    (f.keyField.elim (.error .clientError) .ok, a.used f tokenKey) := by
  rw [on_ascGetKey, Frame.keyField]
  split_ifs <;> rfl

theorem on_slabField {nkey vlen : ℕ} : (ascGetSlabid cfg nkey vlen).on a =
    ((slabField cfg nkey vlen).elim (.error .clientError) .ok, a) := by
  rw [on_ascGetSlabid, slabField]
  split_ifs <;> rfl

theorem Gives.key {g : Key → Handler Command} {cmd : Key → Option Command} {noreply : Bool}
    (ha : a.noreply = noreply) (hg : ∀ key, ∀ a' : Asc, a'.noreply = noreply →
      Gives (g key) a' noreply (cmd key)) :
    Gives (ascGetKey f >>= g) a noreply
      (f.keyField.bind cmd) := by
  refine .part (v := f.keyField) (on_keyField f a) (fun h => ⟨ha, by rw [h]; rfl⟩) fun y h => ?_
  rw [h]
  exact hg y _ ha

theorem Gives.field {i : ℕ} {parse : List UInt8 → Option α} {g : α → Handler Command}
    {cmd : α → Option Command} {noreply : Bool} (ha : a.noreply = noreply)
    (hg : ∀ y, ∀ a' : Asc, a'.noreply = noreply → Gives (g y) a' noreply (cmd y)) :
    Gives (ascGetField f i parse >>= g) a noreply ((parse (f.elem i).str).bind cmd) := by
  refine .part (v := parse (f.elem i).str) (on_ascGetField i parse) (fun h => ⟨ha, by rw [h]; rfl⟩)
    fun y h => ?_
  rw [h]
  exact hg y _ ha

theorem Gives.slabid {nkey vlen : ℕ} {g : Unit → Handler Command} {cmd : Unit → Option Command}
    {noreply : Bool} (ha : a.noreply = noreply) (hg : Gives (g ()) a noreply (cmd ())) :
    Gives (ascGetSlabid cfg nkey vlen >>= g) a noreply
      ((slabField cfg nkey vlen).bind cmd) := by
  refine .part (v := slabField cfg nkey vlen) on_slabField (fun h => ⟨ha, by rw [h]; rfl⟩)
    fun y h => ?_
  rw [h]
  exact hg

theorem Gives.pure {noreply : Bool} (ha : a.noreply = noreply) (cmd : Command) :
    Gives (pure cmd) a noreply (some cmd) := ⟨a.uses, by rw [on_pure, ← ha]; rfl⟩

/-- **What the handler of `set`, `add`, `replace` and `cas` gives.** -/
theorem gives_update (h : 2 ≤ f.ntoken) : Gives (ascProcessUpdate cfg set type f) a
    (a.noreply || f.lastIsNoreply)
    (if f.Bounded type (a.noreply || f.lastIsNoreply) then
      (f.updateFields cfg type).map fun (key, flags, exptime, vlen, casId) =>
        .update type key (if set.hotkeyEnable then 0 else flags) exptime vlen casId
    else none) := by
  simp only [Frame.updateFields, Option.map_bind, Function.comp_def, Option.map_map]
  unfold ascProcessUpdate ascGetFlags ascGetExpiry ascGetVlen
  refine .checks h fun _ a' ha => .key ha fun key a' ha => .field ha fun flags a' ha =>
    .field ha fun exptime a' ha => .field ha fun vlen a' ha => .slabid ha ?_
  rw [← Option.map_eq_map, map_eq_pure_bind]
  change Gives _ _ _ ((f.casField type).bind _)
  refine .part (v := f.casField type) (b := if type = .cas then a'.used f tokenCas else a') ?_
    (fun hn => ⟨by split_ifs <;> exact ha, by rw [hn]; rfl⟩) fun y hy => ?_
  · rw [Frame.casField, ascGetCas]
    split_ifs
    · rw [on_map, on_ascGetField]
      cases mcStrtoull (f.elem tokenCas).str <;> rfl
    · rfl
  · rw [hy]
    exact .pure (by split_ifs <;> exact ha) _

/-- **What the handler of `append`, `prepend`, `appendrl` and `prependrl` gives.** -/
theorem gives_annex (h : 2 ≤ f.ntoken) : Gives (ascProcessAnnex cfg type f) a
    (a.noreply || f.lastIsNoreply)
    (if f.Bounded type (a.noreply || f.lastIsNoreply) then
      (f.annexFields cfg).map fun (key, vlen) => .annex type key vlen
    else none) := by
  simp only [Frame.annexFields, Option.map_bind, Function.comp_def, Option.map_map]
  unfold ascProcessAnnex ascGetVlen
  refine .checks h fun _ a' ha => .key ha fun key a' ha => .field ha fun vlen a' ha => ?_
  rw [← Option.map_eq_map, map_eq_pure_bind]
  exact .slabid ha (.pure ha _)

/-- What the handler of `incr` and `decr` gives. -/
theorem gives_delta (h : 2 ≤ f.ntoken) : Gives (ascProcessDelta type f) a
    (a.noreply || f.lastIsNoreply)
    (if f.Bounded type (a.noreply || f.lastIsNoreply) then
      f.keyField.bind fun key =>
      (mcStrtoull (f.elem tokenDelta).str).bind fun delta => some (.delta (type = .incr) key delta)
    else none) := by
  unfold ascProcessDelta ascGetDelta
  exact .checks h fun _ a' ha => .key ha fun key a' ha => .field ha fun delta a' ha => .pure ha _

/-- What the handler of `delete` gives. -/
theorem gives_delete (h : 2 ≤ f.ntoken) : Gives (ascProcessDelete type f) a
    (a.noreply || f.lastIsNoreply)
    (if f.Bounded type (a.noreply || f.lastIsNoreply) then
      f.keyField.bind fun key =>
      some (.delete key)
    else none) := by
  unfold ascProcessDelete
  exact .checks h fun _ a' ha => .key ha fun key a' ha => .pure ha _

/-! ### What handlers can give -/

/-- The commands that are carried out at once and answered with one reply. -/
def Command.plain : Command → Bool
  | .read _ | .update .. | .annex .. | .quit => false
  | _ => true

/-- The plain commands whose reply is a text that the handler knows. -/
def Command.prompt : Command → Bool
  | .stats _ => false
  | cmd => cmd.plain

theorem Command.plain_of_prompt {cmd : Command} (h : cmd.prompt = true) : cmd.plain = true := by
  cases cmd <;> first | rfl | exact h

/-- What a handler gives, if it does not end early, has a property. -/
def Yields (x : Handler α) (P : α → Prop) : Prop := ∀ a v a', x.on a = (.ok v, a') → P v

namespace Yields

variable {P : α → Prop} {x y : Handler α}

theorem pure {v : α} (h : P v) : Yields (pure v) P := by
  intro a v' a' hv
  obtain ⟨hv, -⟩ := Prod.mk.inj hv
  exact Except.ok.inj hv ▸ h

theorem throw (r : Rsp) : Yields (throw r) P := by
  intro a v a' hv
  cases (Prod.mk.inj hv).1

theorem bind {z : Handler β} {g : β → Handler α} (h : ∀ v, Yields (g v) P) :
    Yields (z >>= g) P := by
  intro a v a' hv
  rcases hz : z.on a with ⟨r | u, b⟩
  · rw [on_bind_error hz] at hv
    cases (Prod.mk.inj hv).1
  · rw [on_bind_ok hz] at hv
    exact h u b v a' hv

theorem mono {Q : α → Prop} (h : Yields x P) (hPQ : ∀ v, P v → Q v) : Yields x Q :=
  fun a v a' hv => hPQ v (h a v a' hv)

theorem ite {c : Prop} [Decidable c] (hx : Yields x P) (hy : Yields y P) :
    Yields (if c then x else y) P := by
  split_ifs
  · exact hx
  · exact hy

theorem stop {r : Rsp} {g : β → Handler α} :
    Yields ((MonadExcept.throw r : Handler β) >>= g) P := by
  intro a v a' hv
  rw [on_bind_error (on_throw r a)] at hv
  cases (Prod.mk.inj hv).1

end Yields

section

variable {P : Command → Prop}

theorem yields_stats (hstats : ∀ sub, P (.stats sub)) : Yields (ascProcessStats set type f) P := by
  unfold ascProcessStats
  refine .ite .stop (.bind fun _ => .ite (.pure (hstats _)) (.bind fun t => ?_))
  refine .ite (.throw _) (.ite (.pure (hstats _)) (.ite (.ite .stop ?_) ?_))
  · exact .bind fun id => .bind fun limit => .ite .stop (.pure (hstats _))
  · exact .ite (.pure (hstats _)) (.ite (.pure (hstats _)) (.throw _))

theorem yields_flushall (hflush : ∀ exptime, P (.flush exptime)) :
    Yields (ascProcessFlushall type f) P := by
  unfold ascProcessFlushall
  exact .bind fun _ => .bind fun _ => .bind fun _ => .ite (.pure (hflush _))
    (.bind fun _ => .pure (hflush _))

theorem yields_verbosity (hset : ∀ s, P (.configure s)) : Yields (ascProcessVerbosity f) P := by
  unfold ascProcessVerbosity
  exact .bind fun _ => .ite .stop (.bind fun _ => .pure (hset _))

theorem yields_klog (hset : ∀ s, P (.configure s)) : Yields (ascProcessKlog set type f) P := by
  unfold ascProcessKlog
  refine .bind fun _ => .bind fun t => .ite (.ite .stop (.bind fun t => ?_))
    (.ite (.bind fun t => .ite (.pure (hset _)) ?_)
      (.ite (.bind fun t => .ite (.pure (hset _)) ?_) (.throw _)))
  · exact .ite (.pure (hset _)) (.ite (.pure (hset _)) (.throw _))
  · cases mcStrtol t.str with
    | none => exact .throw _
    | some n => exact .ite (.throw _) (.pure (hset _))
  · cases mcStrtol t.str with
    | none => exact .throw _
    | some n => exact .ite (.throw _) (.pure (hset _))

theorem yields_hotkey (hset : ∀ s, P (.configure s)) : Yields (ascProcessHotkey set type f) P := by
  unfold ascProcessHotkey
  refine .bind fun _ => .ite .stop
    (.bind fun t => .ite (.bind fun t => ?_) (.ite ?_ (.ite ?_ (.ite ?_
    (.ite ?_ (.throw _))))))
  · exact .ite (.ite .stop (.pure (hset _))) (.ite (.pure (hset _)) (.throw _))
  · exact .ite .stop (.bind fun _ => .ite (.pure (hset _)) (.throw _))
  · exact .ite .stop (.bind fun _ => .ite (.pure (hset _)) (.throw _))
  · exact .bind fun _ => .ite (.pure (hset _)) (.throw _)
  · exact .bind fun _ => .pure (hset _)

theorem yields_config (hset : ∀ s, P (.configure s)) : Yields (ascProcessConfig set type f) P := by
  unfold ascProcessConfig
  refine .bind fun t => .ite ?_ (.ite (yields_klog hset) (.ite ?_ (.ite ?_
    (.ite (yields_hotkey hset) (.throw _)))))
  · exact .ite .stop (.bind fun _ => .ite (.pure (hset _)) (.ite (.pure (hset _)) (.pure (hset _))))
  · exact .ite .stop (.bind fun _ => .ite (.pure (hset _)) (.throw _))
  · exact .ite .stop (.bind fun _ => .ite (.pure (hset _)) (.throw _))

/-- The handlers of requests without a key. -/
theorem yields_keyless (ht : type ∈ [.flushall, .verbosity, .config, .version, .stats, .unknown])
    (hrespond : ∀ r, P (.respond r)) (hstats : ∀ sub, P (.stats sub))
    (hflush : ∀ exptime, P (.flush exptime)) (hset : ∀ s, P (.configure s)) :
    Yields (ascHandler cfg set f type) P := by
  cases type with
  | flushall => exact yields_flushall hflush
  | verbosity => exact yields_verbosity hset
  | config => exact yields_config hset
  | version => exact .pure (hrespond _)
  | stats => exact yields_stats hstats
  | unknown => exact .throw _
  | _ => exact absurd ht (by decide)

end

/-- The handlers of requests that are neither stored nor read nor quit nor about statistics. -/
theorem yields_prompt
    (ht : type ∉ [.get, .gets, .quit, .set, .add, .replace, .cas, .append, .prepend, .appendrl,
      .prependrl, .stats]) :
    Yields (ascHandler cfg set f type) (·.prompt = true) := by
  cases type with
  | incr | decr => exact .bind fun _ => .bind fun _ => .bind fun _ => .bind fun _ => .pure rfl
  | delete => exact .bind fun _ => .bind fun _ => .bind fun _ => .pure rfl
  | flushall => exact yields_flushall fun _ => rfl
  | verbosity => exact yields_verbosity fun _ => rfl
  | config => exact yields_config fun _ => rfl
  | version => exact .pure rfl
  | unknown => exact .throw _
  | _ => exact absurd (by decide) ht

/-- **The handlers of other requests than `get`, `gets`, `quit` and the storage commands** carry
them out at once. -/
theorem yields_ascHandler (ht : type ∉ [.get, .gets, .quit, .set, .add, .replace, .cas, .append,
    .prepend, .appendrl, .prependrl]) : Yields (ascHandler cfg set f type) (·.plain = true) := by
  by_cases hstats : type = .stats
  · rw [hstats]
    exact yields_stats fun _ => rfl
  · refine (yields_prompt fun hmem => ?_).mono fun _ => Command.plain_of_prompt
    cases type <;> simp at ht hmem hstats

/-! ### Handlers that leave `noreply` alone -/

/-- The handler does not set `noreply`. -/
def Keeps (x : Handler α) : Prop := ∀ a r a', x.on a = (r, a') → a'.noreply = a.noreply

namespace Keeps

variable {x y : Handler α}

theorem pure (v : α) : Keeps (pure v) := by
  intro a r a' h
  rw [← (Prod.mk.inj h).2]

theorem throw (r : Rsp) : Keeps (throw r : Handler α) := by
  intro a r' a' h
  rw [← (Prod.mk.inj h).2]

theorem bind {z : Handler β} {g : β → Handler α} (hz : Keeps z) (hg : ∀ v, Keeps (g v)) :
    Keeps (z >>= g) := by
  intro a r a' h
  rcases hza : z.on a with ⟨r' | v, b⟩
  · rw [on_bind_error hza] at h
    rw [← (Prod.mk.inj h).2]
    exact hz a _ b hza
  · rw [on_bind_ok hza] at h
    exact (hg v b r a' h).trans (hz a _ b hza)

theorem ite {c : Prop} [Decidable c] (hx : Keeps x) (hy : Keeps y) :
    Keeps (if c then x else y) := by
  split_ifs
  · exact hx
  · exact hy

theorem word (i : ℕ) : Keeps (f.word i) := by
  intro a r a' h
  rw [on_word] at h
  rw [← (Prod.mk.inj h).2, Asc.used_noreply]

theorem validate : Keeps (ascValidateNtoken type f) := by
  intro a r a' h
  rw [on_ascValidateNtoken] at h
  split_ifs at h <;> rw [← (Prod.mk.inj h).2]

theorem field (i : ℕ) (parse : List UInt8 → Option α) : Keeps (ascGetField f i parse) := by
  intro a r a' h
  rw [on_ascGetField] at h
  rw [← (Prod.mk.inj h).2, Asc.used_noreply]

end Keeps

theorem keeps_stats : Keeps (ascProcessStats set type f) := by
  have hcachedump : Keeps (do
      let id ← ascGetField f tokenCachedumpId mcStrtoul
      let limit ← ascGetField f tokenCachedumpLimit mcStrtoul
      if id < slabclassMinId ∨ id > slabclassMaxId then throw Rsp.clientError
      return Command.stats (.cachedump id limit)) :=
    .bind (.field _ _) fun id => .bind (.field _ _) fun limit =>
      .ite (.bind (.throw _) fun _ => .pure _) (.pure _)
  unfold ascProcessStats
  refine .ite (.bind (.throw _) fun _ => ?_) ?_
  all_goals
    refine .bind .validate fun _ => .ite (.pure _) (.bind (.word _) fun t => ?_)
    refine .ite (.throw _) (.ite (.pure _) (.ite ?_ (.ite (.pure _) (.ite (.pure _) (.throw _)))))
    exact .ite (.bind (.throw _) fun _ => hcachedump) hcachedump

end Twemcache

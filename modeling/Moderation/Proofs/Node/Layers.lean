import Moderation.Node.Basic
import Moderation.Proofs.Json.Record
import Moderation.Proofs.Node.Validity
import Moderation.Proofs.Text.Spelling
/-!
# Layers of a configuration

A configuration has seven fields. Each has a default, a file can say of each what it is, and five of them have a
variable of the environment that goes before both. Variables are applied one after the other, and the first whose value
says nothing ends it: `Setting.applyAll_cases` says what has been done by then, for any variables that each set a field
of their own. `Config.layered` says where each field of a loaded configuration comes from.
-/

namespace Moderation

open Json (Filled)

/-! ## Groups of settings in JSON -/

theorem Mute.Variant.ofName?_eq_some_iff {name : String} {v : Variant} : ofName? name = some v ↔ name = v.name := by
  constructor
  · intro h
    have hname := List.find?_some h
    exact (beq_iff_eq.1 hname).symm
  · rintro rfl
    cases v <;> rfl

namespace Sync.Config

def names : List String := ["poll_interval_ms", "transport"]

theorem filled_of_ofJson? {v : Json} {c : Config} (h : ofJson? v = some c) :
    let d : Config := {}
    Filled Json.toUInt64? d.pollInterval (v.at? names "poll_interval_ms") c.pollInterval ∧
      Filled MediumKind.ofJson? d.medium (v.at? names "transport") c.medium := by
  obtain ⟨fs, hfs, h⟩ := Json.exists_given (by decide) h
  split at h
  · obtain ⟨_, hpoll, h⟩ := Option.bind_eq_some_iff.1 h
    obtain ⟨_, hmedium, h⟩ := Option.bind_eq_some_iff.1 h
    cases h
    simp only [List.map_cons, List.map_nil, List.cons.injEq, and_true] at hfs
    obtain ⟨hat₁, hat₂⟩ := hfs
    exact ⟨hat₁ ▸ Json.Field.filled_of_default hpoll, hat₂ ▸ Json.Field.filled_of_default hmedium⟩
  · cases h

end Sync.Config

namespace Mute.Config

def names : List String := ["variant", "expiration_ms", "expire_after_access", "purge_interval_ms", "grace_period_ms"]

theorem filled_of_ofJson? {v : Json} {c : Config} (h : ofJson? v = some c) :
    let d : Config := {}
    Filled Variant.ofJson? d.variant (v.at? names "variant") c.variant ∧
      Filled Json.toUInt64? d.expiration (v.at? names "expiration_ms") c.expiration ∧
      Filled Json.toBool? d.expireAfterAccess (v.at? names "expire_after_access") c.expireAfterAccess ∧
      Filled Json.toUInt64? d.purgeInterval (v.at? names "purge_interval_ms") c.purgeInterval ∧
      Filled Json.toUInt64? d.gracePeriod (v.at? names "grace_period_ms") c.gracePeriod := by
  obtain ⟨fs, hfs, h⟩ := Json.exists_given (by decide) h
  split at h
  · obtain ⟨_, hvariant, h⟩ := Option.bind_eq_some_iff.1 h
    obtain ⟨_, hexpiration, h⟩ := Option.bind_eq_some_iff.1 h
    obtain ⟨_, haccess, h⟩ := Option.bind_eq_some_iff.1 h
    obtain ⟨_, hpurge, h⟩ := Option.bind_eq_some_iff.1 h
    obtain ⟨_, hgrace, h⟩ := Option.bind_eq_some_iff.1 h
    cases h
    simp only [List.map_cons, List.map_nil, List.cons.injEq, and_true] at hfs
    obtain ⟨hat₁, hat₂, hat₃, hat₄, hat₅⟩ := hfs
    exact ⟨hat₁ ▸ Json.Field.filled_of_default hvariant, hat₂ ▸ Json.Field.filled_of_default hexpiration,
      hat₃ ▸ Json.Field.filled_of_default haccess, hat₄ ▸ Json.Field.filled_of_default hpurge,
      hat₅ ▸ Json.Field.filled_of_default hgrace⟩
  · cases h

end Mute.Config

namespace Node

namespace Config

def names : List String := ["sync", "mute_cache"]

theorem filled_groups {v : Json} {c : Config} (h : ofJson? v = some c) :
    Filled Sync.Config.ofJson? {} (v.at? names "sync") c.sync ∧
      Filled Mute.Config.ofJson? {} (v.at? names "mute_cache") c.muteCache := by
  obtain ⟨fs, hfs, h⟩ := Json.exists_given (by decide) h
  split at h
  · obtain ⟨_, hsync, h⟩ := Option.bind_eq_some_iff.1 h
    obtain ⟨_, hmute, h⟩ := Option.bind_eq_some_iff.1 h
    cases h
    simp only [List.map_cons, List.map_nil, List.cons.injEq, and_true] at hfs
    obtain ⟨hat₁, hat₂⟩ := hfs
    exact ⟨hat₁ ▸ Json.Field.filled_of_default hsync, hat₂ ▸ Json.Field.filled_of_default hmute⟩
  · cases h

/-! ## Fields -/

/-- The fields of a configuration. -/
inductive Field where
  | pollInterval
  | medium
  | variant
  | expiration
  | expireAfterAccess
  | purgeInterval
  | gracePeriod
deriving DecidableEq

namespace Field

def Value : Field → Type
  | pollInterval | expiration | purgeInterval | gracePeriod => UInt64
  | medium => MediumKind
  | variant => Mute.Variant
  | expireAfterAccess => Bool

def get : (k : Field) → Config → k.Value
  | pollInterval, c => c.sync.pollInterval
  | medium, c => c.sync.medium
  | variant, c => c.muteCache.variant
  | expiration, c => c.muteCache.expiration
  | expireAfterAccess, c => c.muteCache.expireAfterAccess
  | purgeInterval, c => c.muteCache.purgeInterval
  | gracePeriod, c => c.muteCache.gracePeriod

def set : (k : Field) → k.Value → Config → Config
  | pollInterval, x, c => { c with sync.pollInterval := x }
  | medium, x, c => { c with sync.medium := x }
  | variant, x, c => { c with muteCache.variant := x }
  | expiration, x, c => { c with muteCache.expiration := x }
  | expireAfterAccess, x, c => { c with muteCache.expireAfterAccess := x }
  | purgeInterval, x, c => { c with muteCache.purgeInterval := x }
  | gracePeriod, x, c => { c with muteCache.gracePeriod := x }

theorem get_set_self (k : Field) (x : k.Value) (c : Config) : k.get (k.set x c) = x := by
  cases k <;> rfl

theorem get_set_of_ne {k k' : Field} (h : k' ≠ k) (x : k.Value) (c : Config) : k'.get (k.set x c) = k'.get c := by
  cases k <;> cases k' <;> try rfl
  all_goals exact absurd rfl h

/-- The group of settings to which the field belongs, and the names of all fields of that group. -/
def group : Field → String × List String
  | pollInterval | medium => ("sync", Sync.Config.names)
  | variant | expiration | expireAfterAccess | purgeInterval | gracePeriod => ("mute_cache", Mute.Config.names)

def name : Field → String
  | pollInterval => "poll_interval_ms"
  | medium => "transport"
  | variant => "variant"
  | expiration => "expiration_ms"
  | expireAfterAccess => "expire_after_access"
  | purgeInterval => "purge_interval_ms"
  | gracePeriod => "grace_period_ms"

def ofJson? : (k : Field) → Json → Option k.Value
  | pollInterval | expiration | purgeInterval | gracePeriod => Json.toUInt64?
  | medium => MediumKind.ofJson?
  | variant => Mute.Variant.ofJson?
  | expireAfterAccess => Json.toBool?

/-- What a configuration in JSON says of the field. -/
def at? (k : Field) (v : Json) : Option Json := (v.at? names k.group.1).bind (Json.at? k.group.2 k.name)

end Field

/-- Each field of a configuration in JSON is what that says of it, or the default if it says nothing. -/
theorem filled_of_ofJson? {v : Json} {c : Config} (h : ofJson? v = some c) (k : Field) :
    Filled k.ofJson? (k.get {}) (k.at? v) (k.get c) := by
  obtain ⟨hsync, hmute⟩ := filled_groups h
  cases k with
  | pollInterval => exact hsync.part fun _ _ hs => (Sync.Config.filled_of_ofJson? hs).1
  | medium => exact hsync.part fun _ _ hs => (Sync.Config.filled_of_ofJson? hs).2
  | variant => exact hmute.part fun _ _ hs => (Mute.Config.filled_of_ofJson? hs).1
  | expiration => exact hmute.part fun _ _ hs => (Mute.Config.filled_of_ofJson? hs).2.1
  | expireAfterAccess => exact hmute.part fun _ _ hs => (Mute.Config.filled_of_ofJson? hs).2.2.1
  | purgeInterval => exact hmute.part fun _ _ hs => (Mute.Config.filled_of_ofJson? hs).2.2.2.1
  | gracePeriod => exact hmute.part fun _ _ hs => (Mute.Config.filled_of_ofJson? hs).2.2.2.2

namespace Field

/-! ## What a variable says -/

/-- The variable of the environment that sets the field. -/
def variableName? : Field → Option String
  | pollInterval => some "MODSYNC_POLL_INTERVAL_MS"
  | expiration => some "MODSYNC_MUTE_EXPIRATION_MS"
  | purgeInterval => some "MODSYNC_PURGE_INTERVAL_MS"
  | gracePeriod => some "MODSYNC_GRACE_PERIOD_MS"
  | variant => some "MODSYNC_MUTE_CACHE"
  | medium | expireAfterAccess => none

/-- The fields that have a variable, in the order in which these are applied. -/
def overridden : List Field := [pollInterval, expiration, purgeInterval, gracePeriod, variant]

/-- What the field's variable is set to. -/
def setting? (env : Environment) (k : Field) : Option String := k.variableName?.bind env

/-- The text, with no blanks around it, is how that value of the field is written in the environment. -/
def Spells : (k : Field) → List Char → k.Value → Prop
  | pollInterval, cs, (ms : UInt64) => Numeral.Denotes cs ms.toNat
  | expiration, cs, (ms : UInt64) => Numeral.Denotes cs ms.toNat
  | purgeInterval, cs, (ms : UInt64) => Numeral.Denotes cs ms.toNat
  | gracePeriod, cs, (ms : UInt64) => Numeral.Denotes cs ms.toNat
  | variant, cs, .alwaysAvailable => cs = "always-available".toList
  | variant, cs, .onDemand => cs = "on-demand".toList
  | medium, _, _ => False
  | expireAfterAccess, _, _ => False

/-- The text is that value of the field, with blanks around it or without. -/
def Says (k : Field) (value : String) (x : k.Value) : Prop :=
  ∃ inner, Blank.Surrounds value.toList inner ∧ k.Spells inner x

/-- If the field's variable is set, then to a value of the field. -/
def Legible (env : Environment) (k : Field) : Prop :=
  ∀ value, k.setting? env = some value → ∃ x, k.Says value x

/-- The field gets what its variable says, and stays as it is if that is not set. -/
def Overrides (env : Environment) (k : Field) (old new : k.Value) : Prop :=
  match k.setting? env with
  | some value => k.Says value new
  | none => new = old

end Field

/-- Of these fields each gets what its variable says, and all others stay as they are. -/
def Applies (env : Environment) (ks : List Field) (c c' : Config) : Prop :=
  (∀ k ∈ ks, k.Overrides env (k.get c) (k.get c')) ∧ ∀ k ∉ ks, k.get c' = k.get c

theorem Applies.cons {env : Environment} {k : Field} {ks : List Field} {c c₁ c' : Config} (hk : k ∉ ks)
    (h : Applies env [k] c c₁) (h' : Applies env ks c₁ c') : Applies env (k :: ks) c c' := by
  refine ⟨fun k' hk' => ?_, fun k' hk' => ?_⟩
  · rcases List.mem_cons.1 hk' with rfl | hmem
    · rw [h'.2 k' hk]
      exact h.1 k' (List.mem_singleton_self k')
    · have hne : k' ∉ [k] := by
        rw [List.mem_singleton]
        rintro rfl
        exact hk hmem
      rw [← h.2 k' hne]
      exact h'.1 k' hmem
  · simp only [List.mem_cons, not_or] at hk'
    exact (h'.2 k' hk'.2).trans (h.2 k' (by simpa using hk'.1))

/-- The first of these fields whose variable says nothing, and what that is set to. -/
structure FirstIllegible (env : Environment) (ks before : List Field) (k : Field) (value : String) : Prop where
  split : ∃ after, ks = before ++ k :: after
  legible : ∀ k' ∈ before, k'.Legible env
  setting : k.setting? env = some value
  illegible : ∀ x, ¬k.Says value x

end Config

/-! ## Applying the variables -/

namespace Setting

open Config

variable {env : Environment} {s : Setting} {k : Field} {ss : List Setting} {ks : List Field}

/-- The variable sets that field. -/
structure Sets (s : Setting) (k : Field) : Prop where
  name : k.variableName? = some s.name
  assign : ∀ value c c', s.assign? (Blank.trim value.toList) c = some c' ↔ ∃ x, k.Says value x ∧ c' = k.set x c

theorem assign?_millis {name value : String} {assign : UInt64 → Config → Config} {c c' : Config} :
    (millis name assign).assign? (Blank.trim value.toList) c = some c' ↔
      ∃ ms : UInt64, (∃ inner, Blank.Surrounds value.toList inner ∧ Numeral.Denotes inner ms.toNat) ∧
        c' = assign ms c := by
  simp only [millis, Option.map_eq_some_iff, Numeral.word?_eq_some_iff, ← Blank.trim_eq_iff, exists_eq_left',
    eq_comm (a := assign _ _)]

theorem spells_variant {cs : List Char} {v : Mute.Variant} :
    Field.variant.Spells cs v ↔ Mute.Variant.ofName? (String.ofList cs) = some v := by
  rw [Mute.Variant.ofName?_eq_some_iff, ← String.toList_inj, String.toList_ofList]
  cases v <;> rfl

theorem sets_all : List.Forall₂ Sets all Field.overridden := by
  refine .cons ⟨rfl, ?_⟩ (.cons ⟨rfl, ?_⟩ (.cons ⟨rfl, ?_⟩ (.cons ⟨rfl, ?_⟩ (.cons ⟨rfl, ?_⟩ .nil))))
  · exact fun _ _ _ => assign?_millis
  · exact fun _ _ _ => assign?_millis
  · exact fun _ _ _ => assign?_millis
  · exact fun _ _ _ => assign?_millis
  · intro value c c'
    simp only [Option.map_eq_some_iff, Field.Says, ← Blank.trim_eq_iff, exists_eq_left']
    exact exists_congr fun v => and_congr spells_variant.symm eq_comm

/-- A variable that is not set changes nothing, one that says something changes its field, and any other is refused. -/
theorem Sets.apply (h : s.Sets k) (env : Environment) (c : Config) :
    (k.Legible env ∧ ∃ c', s.apply env c = .ok c' ∧ Applies env [k] c c') ∨
    ∃ value, k.setting? env = some value ∧ (∀ x, ¬k.Says value x) ∧
      s.apply env c = .error (.invalidEnv s.name value) := by
  have hsetting : k.setting? env = env s.name := by rw [Field.setting?, h.name, Option.bind_some]
  unfold Setting.apply
  cases hvalue : env s.name with
  | none =>
    rw [hvalue] at hsetting
    refine .inl ⟨fun value hset => ?_, c, rfl, fun k' hk' => ?_, fun k' _ => rfl⟩
    · rw [hsetting] at hset
      cases hset
    · obtain rfl := List.mem_singleton.1 hk'
      simp only [Field.Overrides, hsetting]
  | some value =>
    rw [hvalue] at hsetting
    cases hassign : s.assign? (Blank.trim value.toList) c with
    | some c' =>
      obtain ⟨x, hsays, rfl⟩ := (h.assign value c c').1 hassign
      refine .inl ⟨fun value' hset => ?_, k.set x c, by simp only [hassign], fun k' hk' => ?_, fun k' hk' => ?_⟩
      · rw [hsetting] at hset
        cases hset
        exact ⟨x, hsays⟩
      · obtain rfl := List.mem_singleton.1 hk'
        simp only [Field.Overrides, hsetting, Field.get_set_self]
        exact hsays
      · exact Field.get_set_of_ne (by simpa using hk') x c
    | none =>
      refine .inr ⟨value, hsetting, fun x hsays => ?_, by simp only [hassign]⟩
      rw [(h.assign value c (k.set x c)).2 ⟨x, hsays, rfl⟩] at hassign
      cases hassign

/-- Variables are applied up to the first that says nothing, and what was applied before it stays. -/
theorem applyAll_cases (env : Environment) (h : List.Forall₂ Sets ss ks) (hks : ks.Nodup) (c : Config) :
    ((∀ k ∈ ks, k.Legible env) ∧ ∃ c', applyAll env ss c = (.ok (), c') ∧ Applies env ks c c') ∨
    ∃ before k name value c', FirstIllegible env ks before k value ∧ k.variableName? = some name ∧
      applyAll env ss c = (.error (.invalidEnv name value), c') ∧ Applies env before c c' := by
  induction h generalizing c with
  | nil => exact .inl ⟨by simp, c, rfl, by simp [Applies]⟩
  | @cons s k ss ks hs _ ih =>
    -- No later variable sets the field again.
    obtain ⟨hk, hks⟩ := List.nodup_cons.1 hks
    rcases hs.apply env c with ⟨hlegible, c₁, happly, hfirst⟩ | ⟨value, hsetting, hnone, happly⟩
    · have hall : applyAll env (s :: ss) c = applyAll env ss c₁ := by simp only [applyAll, happly]
      rw [hall]
      rcases ih hks c₁ with ⟨hrest, c', hok, happlies⟩ | ⟨before, k', name, value, c', hbad, hname, herror, happlies⟩
      · exact .inl ⟨List.forall_mem_cons.2 ⟨hlegible, hrest⟩, c', hok, hfirst.cons hk happlies⟩
      · obtain ⟨after, rfl⟩ := hbad.split
        have hk : k ∉ before := fun hmem => hk (List.mem_append_left _ hmem)
        refine .inr ⟨k :: before, k', name, value, c', { hbad with
          split := ⟨after, rfl⟩
          legible := List.forall_mem_cons.2 ⟨hlegible, hbad.legible⟩ }, hname, herror, hfirst.cons hk happlies⟩
    · refine .inr ⟨[], k, s.name, value, c, ⟨⟨ks, rfl⟩, by simp, hsetting, hnone⟩, hs.name, ?_, by simp [Applies]⟩
      simp only [applyAll, happly]

end Setting

/-! ## The layers together -/

namespace Config

/-- What is written in the file that the environment names. -/
def file? (env : Environment) (readFile : String → Option String) : Option Json :=
  ((env fileVariable).bind readFile).bind Json.parse?

/-- The value is what the field's variable says if that is set, else what the file says, and else the default. -/
def Field.Layered (env : Environment) (file? : Option Json) (k : Field) (x : k.Value) : Prop :=
  match k.setting? env with
  | some value => k.Says value x
  | none => Filled k.ofJson? (k.get {}) (file?.bind k.at?) x

variable {env : Environment} {readFile : String → Option String} {c : Config}

theorem filled_of_base (h : base env readFile = .ok c) (k : Field) :
    Filled k.ofJson? (k.get {}) ((file? env readFile).bind k.at?) (k.get c) := by
  unfold base at h
  split at h
  · next path hpath =>
    unfold ofFile at h
    split at h
    · cases h
    · next text htext =>
      split at h
      · next c' hc =>
        cases h
        obtain ⟨v, hv, hjson⟩ := Option.bind_eq_some_iff.1 hc
        simp only [file?, hpath, htext, hv, Option.bind_some]
        exact filled_of_ofJson? hjson k
      · cases h
  · next hnone =>
    cases h
    simp only [file?, hnone, Option.bind_none]
    rfl

theorem Field.mem_overridden_of_setting {k : Field} {value : String} (h : k.setting? env = some value) :
    k ∈ overridden := by
  cases k with
  | medium | expireAfterAccess => cases h
  | _ => decide

theorem Applies.overrides {c' : Config} (h : Applies env Field.overridden c c') (k : Field) :
    k.Overrides env (k.get c) (k.get c') := by
  by_cases hk : k ∈ Field.overridden
  · exact h.1 k hk
  · unfold Field.Overrides
    split
    · next hsetting => exact absurd (Field.mem_overridden_of_setting hsetting) hk
    · exact h.2 k hk

theorem applyOverrides_cases (env : Environment) (c : Config) :
    ((∀ k : Field, k.Legible env) ∧ ∃ c', c.applyOverrides env = (.ok (), c') ∧
      ∀ k : Field, k.Overrides env (k.get c) (k.get c')) ∨
    ∃ before k name value c', FirstIllegible env Field.overridden before k value ∧ k.variableName? = some name ∧
      c.applyOverrides env = (.error (.invalidEnv name value), c') ∧ Applies env before c c' := by
  rcases Setting.applyAll_cases env Setting.sets_all (by decide) c with ⟨hlegible, c', hok, happlies⟩ | hrefused
  · refine .inl ⟨fun k value hset => ?_, c', hok, happlies.overrides⟩
    exact hlegible k (Field.mem_overridden_of_setting hset) value hset
  · exact .inr hrefused

theorem FirstIllegible.not_legible {ks before : List Field} {k : Field} {value : String}
    (h : FirstIllegible env ks before k value) : ¬k.Legible env := by
  intro hlegible
  obtain ⟨x, hsays⟩ := hlegible value h.setting
  exact h.illegible x hsays

theorem load_eq_ok_iff : load env readFile = .ok c ↔
    ∃ c₀, base env readFile = .ok c₀ ∧ c₀.applyOverrides env = (.ok (), c) ∧ c.validate = .ok () := by
  constructor
  · intro h
    obtain ⟨c₀, hbase, h⟩ := bind_eq_ok.1 h
    obtain ⟨_, houtcome, h⟩ := bind_eq_ok.1 h
    obtain ⟨_, hvalid, h⟩ := bind_eq_ok.1 h
    cases h
    exact ⟨c₀, hbase, Prod.ext (mapError_eq_ok.1 houtcome) rfl, mapError_eq_ok.1 hvalid⟩
  · rintro ⟨c₀, hbase, hoverrides, hvalid⟩
    refine bind_eq_ok.2 ⟨c₀, hbase, ?_⟩
    rw [hoverrides]
    exact bind_eq_ok.2 ⟨(), rfl, bind_eq_ok.2 ⟨(), mapError_eq_ok.2 hvalid, rfl⟩⟩

theorem layered_of_load (h : load env readFile = .ok c) (k : Field) : k.Layered env (file? env readFile) (k.get c) := by
  obtain ⟨c₀, hbase, hoverrides, -⟩ := load_eq_ok_iff.1 h
  rcases applyOverrides_cases env c₀ with ⟨-, c', hok, happlies⟩ | ⟨_, _, _, _, _, -, -, herror, -⟩
  · rw [hoverrides] at hok
    cases hok
    have hk := happlies k
    unfold Field.Overrides at hk
    unfold Field.Layered
    cases hsetting : k.setting? env with
    | some value =>
      rw [hsetting] at hk
      exact hk
    | none =>
      rw [hsetting] at hk
      have hk : k.get c = k.get c₀ := hk
      rw [hk]
      exact filled_of_base hbase k
  · rw [hoverrides] at herror
    cases herror

/-- A node that is started polls and sweeps, and both have a period if its configuration is accepted. -/
theorem chores_start_periodic {Link : Type} {n : Node Link} (hvalid : n.config.validate = .ok ())
    (hloops : n.lifecycle.loops = none) (now : Nat) :
    (n.start now).lifecycle.chores.map Prod.fst = [.poll, .sweep] ∧
      ∀ l ∈ (n.start now).lifecycle.chores, 0 < l.2.period := by
  obtain ⟨hpoll, hsweep⟩ := intervals_pos hvalid
  cases hhalted : n.lifecycle.halted <;>
    simpa [Node.start, Lifecycle.start, hloops, hhalted, Lifecycle.chores, Loops.toList, Loops.map, Loops.start,
      Ticker.start, Ticker.stop] using ⟨hpoll, hsweep⟩

/-- The variables of the environment are applied to a configuration if every one that is set says something. Then each
field gets what its variable says, and stays as it is without one that is set. Otherwise the first that says nothing is
named with what it is set to; those before it were applied, and all other fields are as they were. A configuration that
is loaded has in each field what its variable says, else what the file says, and else the default. It is within its
bounds, and the loops of a node that is started with it have a period. -/
theorem layered (env : Environment) :
    (∀ c : Config,
      let (outcome, c') := c.applyOverrides env
      (outcome = .ok () ↔ ∀ k : Field, k.Legible env) ∧
      (outcome = .ok () → ∀ k : Field, k.Overrides env (k.get c) (k.get c')) ∧
      ∀ err, outcome = .error err → ∃ before k name value, FirstIllegible env Field.overridden before k value ∧
        k.variableName? = some name ∧ err = .invalidEnv name value ∧ Applies env before c c') ∧
    ∀ (readFile : String → Option String) (c : Config), load env readFile = .ok c →
      (∀ k : Field, k.Layered env (file? env readFile) (k.get c)) ∧
      100 ≤ c.sync.pollInterval.toNat ∧ c.sync.pollInterval.toNat ≤ 60000 ∧
      1000 ≤ c.muteCache.expiration.toNat ∧ 1000 ≤ c.muteCache.purgeInterval.toNat ∧
      ∀ {Link : Type} (n : Node Link) (now : Nat), n.config = c → n.lifecycle.loops = none →
        let loops := (n.start now).lifecycle.chores
        loops.map Prod.fst = [.poll, .sweep] ∧ ∀ l ∈ loops, 0 < l.2.period := by
  refine ⟨fun c => ?_, fun readFile c hload => ?_⟩
  · rcases applyOverrides_cases env c with
      ⟨hlegible, c', hok, happlies⟩ | ⟨before, k, name, value, c', hfirst, hname, herror, happlies⟩
    · rw [hok]
      exact ⟨iff_of_true rfl hlegible, fun _ => happlies, fun err h => by cases h⟩
    · rw [herror]
      refine ⟨iff_of_false (by simp) fun h => hfirst.not_legible (h k), fun h => ?_, fun err h => ?_⟩
      · cases h
      · cases h
        exact ⟨before, k, name, value, hfirst, hname, rfl, happlies⟩
  · obtain ⟨-, -, -, hvalid⟩ := load_eq_ok_iff.1 hload
    obtain ⟨hleast, hmost, hexpiration, hpurge⟩ := bounds_of_validate hvalid
    refine ⟨layered_of_load hload, hleast, hmost, hexpiration, hpurge, fun n now hconfig hloops => ?_⟩
    subst hconfig
    exact chores_start_periodic hvalid hloops now

/-- A file, and an environment in which two variables are set: one of them goes before what the file says. In another
environment the second of three variables says nothing, and the third is not applied. -/
theorem layered_over_file :
    let readFile : String → Option String := fun path => [("node.json",
      "\x7b\"sync\":\x7b\"poll_interval_ms\":1500\x7d,\"mute_cache\":[\"always-available\",2000]\x7d")].lookup path
    let env : Environment := fun name => [("MODSYNC_CONFIG", "node.json"), ("MODSYNC_POLL_INTERVAL_MS", " +0250"),
      ("MODSYNC_MUTE_CACHE", "on-demand\n")].lookup name
    let unfit : Environment := fun name => [("MODSYNC_GRACE_PERIOD_MS", "5"), ("MODSYNC_MUTE_EXPIRATION_MS", " soon "),
      ("MODSYNC_POLL_INTERVAL_MS", "250")].lookup name
    let filed : Config := { sync.pollInterval := 1500, muteCache.expiration := 2000 }
    let c : Config := { filed with sync.pollInterval := 250, muteCache.variant := .onDemand }
    let c' : Config := { filed with sync.pollInterval := 250 }
    let n : Node Unit := Node.ofConfig c default () .silent
    filed.applyOverrides env = (.ok (), c) ∧ (∀ k : Field, k.Overrides env (k.get filed) (k.get c)) ∧
      filed.applyOverrides unfit = (.error (.invalidEnv "MODSYNC_MUTE_EXPIRATION_MS" " soon "), c') ∧
      (∃ before k, FirstIllegible unfit Field.overridden before k " soon " ∧ Applies unfit before filed c') ∧
      load env readFile = .ok c ∧ (∀ k : Field, k.Layered env (file? env readFile) (k.get c)) ∧
      n.config = c ∧ n.lifecycle.loops = none ∧ ∀ l ∈ (n.start 0).lifecycle.chores, 0 < l.2.period := by
  intro readFile env unfit filed c c' n
  have happlied : filed.applyOverrides env = (.ok (), c) := by rfl
  have hrefused : filed.applyOverrides unfit = (.error (.invalidEnv "MODSYNC_MUTE_EXPIRATION_MS" " soon "), c') := by rfl
  have hload : load env readFile = .ok c := load_eq_ok_iff.2 ⟨filed, by rfl, happlied, by rfl⟩
  obtain ⟨hoverrides, hloaded⟩ := layered env
  obtain ⟨-, hok, -⟩ := hoverrides filed
  obtain ⟨hlayered, -, -, -, -, hloops⟩ := hloaded readFile c hload
  obtain ⟨-, -, herror⟩ := (layered unfit).1 filed
  obtain ⟨before, k, name, value, hfirst, -, hname, happlies⟩ := herror _ (congrArg Prod.fst hrefused)
  cases hname
  exact ⟨happlied, hok (congrArg Prod.fst happlied), hrefused, ⟨before, k, hfirst, happlies⟩, hload, hlayered,
    rfl, rfl, (hloops n 0 rfl rfl).2⟩

end Config

end Node

end Moderation

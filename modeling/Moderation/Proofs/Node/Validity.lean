import Moderation.Node.Config
/-!
# Valid configurations

Which settings are accepted, and what their bounds mean for the loops of a node.
-/

namespace Moderation

section Steps

variable {ε ε' α β : Type}

/-- Steps that can fail give a result if each of them does. -/
theorem bind_eq_ok {x : Except ε α} {f : α → Except ε β} {b : β} :
    x >>= f = .ok b ↔ ∃ a, x = .ok a ∧ f a = .ok b := by
  cases x <;> simp [bind, Except.bind]

theorem mapError_eq_ok {x : Except ε α} {f : ε → ε'} {a : α} : x.mapError f = .ok a ↔ x = .ok a := by
  cases x with
  | error e => exact iff_of_false nofun nofun
  | ok b =>
    change Except.ok b = .ok a ↔ _
    simp only [Except.ok.injEq]

end Steps

theorem Sync.Config.validate_eq_ok_iff {config : Sync.Config} : config.validate = .ok () ↔
    minPollInterval ≤ config.pollInterval ∧ config.pollInterval ≤ maxPollInterval := by
  unfold validate
  split
  · next h => exact iff_of_true rfl h
  · next h => exact iff_of_false (by simp) h

theorem Mute.Config.validate_eq_ok_iff {config : Mute.Config} : config.validate = .ok () ↔
    minExpiration ≤ config.expiration ∧ minPurgeInterval ≤ config.purgeInterval := by
  unfold validate
  split
  · next h => exact iff_of_false (by simp) fun hle => UInt64.not_le.2 h hle.1
  · next hexpiration =>
    split
    · next h => exact iff_of_false (by simp) fun hle => UInt64.not_le.2 h hle.2
    · next hpurge => exact iff_of_true rfl ⟨UInt64.not_lt.1 hexpiration, UInt64.not_lt.1 hpurge⟩

namespace Node.Config

variable {config : Config}

theorem validate_eq_ok_iff :
    config.validate = .ok () ↔ config.sync.validate = .ok () ∧ config.muteCache.validate = .ok () := by
  simp only [validate, bind_eq_ok, mapError_eq_ok]
  exact ⟨fun ⟨_, h⟩ => h, fun h => ⟨(), h⟩⟩

/-- The bounds within which a configuration is accepted, in milliseconds. -/
theorem bounds_of_validate (h : config.validate = .ok ()) :
    100 ≤ config.sync.pollInterval.toNat ∧ config.sync.pollInterval.toNat ≤ 60000 ∧
      1000 ≤ config.muteCache.expiration.toNat ∧ 1000 ≤ config.muteCache.purgeInterval.toNat := by
  obtain ⟨hsync, hcache⟩ := validate_eq_ok_iff.1 h
  obtain ⟨hleast, hmost⟩ := Sync.Config.validate_eq_ok_iff.1 hsync
  obtain ⟨hexpiration, hpurge⟩ := Mute.Config.validate_eq_ok_iff.1 hcache
  exact ⟨UInt64.le_iff_toNat_le.1 hleast, UInt64.le_iff_toNat_le.1 hmost, UInt64.le_iff_toNat_le.1 hexpiration,
    UInt64.le_iff_toNat_le.1 hpurge⟩

/-- No loop of a node whose configuration is accepted is without a period. -/
theorem intervals_pos (h : config.validate = .ok ()) :
    0 < config.sync.pollInterval.toNat ∧ 0 < config.muteCache.purgeInterval.toNat := by
  obtain ⟨hpoll, -, -, hsweep⟩ := bounds_of_validate h
  omega

end Node.Config

end Moderation

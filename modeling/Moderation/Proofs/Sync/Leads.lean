import Moderation.Node.Command
/-!
# What messages and commands do to a site

A site changes its state by looking punishments up and by carrying calls out, and so does everything that happens
there: the messages that a node deals with and the commands that it is given lead to where these lead, one after
the other.
-/

namespace Moderation

variable {σ : Type}

/-- Looking punishments up and carrying calls out lead from a state to related ones. -/
structure Site.Leads (site : Site σ) (R : σ → σ → Prop) : Prop where
  refl (s : σ) : R s s
  trans {s t u : σ} : R s t → R t u → R s u
  fetch (ref : PunishmentRef) (s : σ) : R s (site.fetch ref s).2
  enforce (call : LocalCall) (s : σ) : R s (site.enforce call s).2

namespace Site.Leads

variable {site : Site σ} {R : σ → σ → Prop}

theorem carryOut (h : site.Leads R) (call : LocalCall) (s : σ) : R s (site.carryOut call s).2 := by
  have henforce := h.enforce call s
  unfold Site.carryOut
  rcases hs : site.enforce call s with ⟨_ | _, s'⟩ <;> rw [hs] at henforce <;> exact henforce

theorem receive (h : site.Leads R) (packet : Packet) (s : σ) : R s (site.receive packet s).2 := by
  cases packet with
  | expunge id | updateDetails id => exact h.carryOut _ s
  | change c =>
    simp only [Site.receive, receiveChange]
    split
    · exact h.carryOut _ s
    · have hfetch := h.fetch c.ref s
      rcases hs : site.fetch c.ref s with ⟨_ | _ | p, s'⟩ <;> rw [hs] at hfetch
      · exact hfetch
      · exact hfetch
      · exact h.trans hfetch (h.carryOut (callOf c p) s')

theorem handle (h : site.Leads R) (self : Uuid) (message : Bytes) (s : σ) :
    R s (Sync.handle self site message s).2 := by
  unfold Sync.handle
  rcases Packet.hear self message with _ | _ | packet
  · exact h.refl s
  · exact h.refl s
  · have hreceive := h.receive packet s
    rcases hs : site.receive packet s with ⟨_ | _, s'⟩ <;> rw [hs] at hreceive <;> simpa only [hs] using hreceive

theorem handleAll (h : site.Leads R) (self : Uuid) (messages : List Bytes) (s : σ) :
    R s (Sync.handleAll self site messages s).2 := by
  induction messages generalizing s with
  | nil => exact h.refl s
  | cons message rest ih => exact h.trans (h.handle self message s) (ih _)

variable {M Link : Type} [Medium M Link]

theorem poll (h : site.Leads R) (now : Timestamp) (v : Sync.Service Link) (m : M) (s : σ) :
    R s (v.poll now site m s).2.2 := by
  unfold Sync.Service.poll
  split
  · exact h.refl s
  · exact h.handleAll v.self _ s

theorem command (h : site.Leads R) (now : Timestamp) (call : LocalCall) (v : Sync.Service Link) (m : M) (s : σ) :
    R s (Node.command now site call v m s).2.2.2 := by
  unfold Node.command
  split
  · exact h.refl s
  · have henforce := h.enforce call s
    rcases hs : site.enforce call s with ⟨_ | _, s'⟩ <;> rw [hs] at henforce <;> exact henforce

end Site.Leads

end Moderation

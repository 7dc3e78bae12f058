import Transportx.Http.Constructors
import Transportx.Pool.InPlace

/-!
# Transportx.Fleet — a pool of drivers

The pool is made for `HttpClientPool<ReqwestHttpDriver>`.  What it hands out is what was put in, so a pool
that is only given guarded drivers is a fleet of guarded drivers (`fleet_is_guarded`).
-/

namespace Transportx.Fleet

open Lts Http Pool

variable {w : ℕ} {K U : Type}

/-- The driver is from a constructor that leaves the defaults as they are. -/
def Built (hw : 24 < w) (d : ReqwestHttpDriver w (Client K U)) : Prop :=
  ∃ (env : ClientEnv K U) (c : Constructor w), c.Protected hw ∧ c.run hw env = .ok d

/-- **A fleet is guarded**, in every run of a pool of drivers, whatever its configuration and the discipline of
its callers.  If every driver that comes in, from a factory, through a return or in place of another one, has
the defaults of `new`, `with_proxy` and a `with_tls` that verifies certificates, then every driver that is
idle, borrowed or handed out is `Guarded`. -/
theorem fleet_is_guarded (hw : 24 < w) (cfg : PoolConfig w)
    {r : List (Transition (Sys (ReqwestHttpDriver w (Client K U))) (Use (ReqwestHttpDriver w (Client K U)))
      (Option (Outcome (ReqwestHttpDriver w (Client K U)))))}
    {s : Sys (ReqwestHttpDriver w (Client K U))} (hr : Path (useStep cfg) Sys.init r s)
    (hbuilt : ∀ t ∈ r, Supplies (Built hw) t.ev) :
    (∀ d ∈ s.places, Guarded hw d) ∧ (∀ t ∈ r, ∀ o ∈ t.out, ∀ d ∈ o.handed, Guarded hw d) ∧
    ∀ (env : ClientEnv K U) (d : ReqwestHttpDriver w (Client K U)),
      (ReqwestHttpDriver.new hw env = .ok d → Built hw d) ∧
      (∀ proxy, ReqwestHttpDriver.withProxy hw env proxy = .ok d → Built hw d) ∧
      ∀ tls : TlsConfig, tls.isInsecure = false → ReqwestHttpDriver.withTls hw env tls = .ok d → Built hw d := by
  have hguard : ∀ d : ReqwestHttpDriver w (Client K U), Built hw d → Guarded hw d :=
    fun d ⟨_, _, hc, hrun⟩ => guarded_of_protected hw hc hrun
  obtain ⟨hplaces, hout⟩ := kept_everywhere hr hbuilt
  refine ⟨fun d hd => hguard d (hplaces d hd), fun t ht o ho d hd => hguard d (hout t ht o ho d hd),
    fun env d => ⟨fun h => ?_, fun proxy h => ?_, fun tls hsecure h => ?_⟩⟩
  · exact ⟨env, .new, Constructor.protected_new hw, h⟩
  · exact ⟨env, .withProxy proxy, Constructor.protected_withProxy hw proxy, h⟩
  · exact ⟨env, .withTls tls, Constructor.protected_withTls hw hsecure, h⟩

/-! ## A fleet to look at -/

/-- What `new` gives where every client can be built. -/
def sampleDriver : ReqwestHttpDriver 64 (Client Bytes String) :=
  ⟨⟨⟨some defaultRequestTimeout, [], false, []⟩⟩, 16777216, 16777216, by decide, by decide⟩

theorem sampleDriver_built : Built (show 24 < 64 by decide) sampleDriver :=
  ⟨sampleEnv, .new, Constructor.protected_new _, rfl⟩

/-- A driver is made for a lease, exchanged by its holder, and returned. -/
def fleetUses : List (Use (ReqwestHttpDriver 64 (Client Bytes String))) :=
  [.label (.checkout 0 .lease, none), .label (.factory 0 (.ok sampleDriver), none),
    .change 0 fun _ => sampleDriver, .label (.dropLease 0, none)]

theorem fleetUses_supply : ∀ u ∈ fleetUses, Supplies (Built (show 24 < 64 by decide)) u := by
  intro u hu
  simp only [fleetUses, List.mem_cons, List.not_mem_nil, or_false] at hu
  rcases hu with rfl | rfl | rfl | rfl
  · exact fun d hd => absurd hd nofun
  · rintro d ⟨⟩
    exact sampleDriver_built
  · exact fun d _ => sampleDriver_built
  · exact fun d hd => absurd hd nofun

theorem fleetUses_enabled : (replay (useStep sampleConfig) Sys.init fleetUses).isSome = true := by
  decide +kernel

/-- The driver that is idle in the end is guarded. -/
theorem fleet_is_guarded_sample : Guarded (show 24 < 64 by decide) sampleDriver := by
  obtain ⟨hrun, hev⟩ := replay_path (Option.some_get fleetUses_enabled).symm
  have hfleet := fleet_is_guarded (show 24 < 64 by decide) sampleConfig hrun fun t ht =>
    fleetUses_supply t.ev (hev ▸ List.mem_map_of_mem ht)
  have hidle : ((replay (useStep sampleConfig) Sys.init fleetUses).get fleetUses_enabled).2.idle =
      [sampleDriver] := rfl
  exact hfleet.1 sampleDriver (mem_places_of_idle (hidle ▸ List.mem_singleton_self sampleDriver))

end Transportx.Fleet

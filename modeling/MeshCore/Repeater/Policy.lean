import MeshCore.Packet.Frame

/-
  The transit policy: whether somebody else's packet travels
  on. It holds no radio, no clock and no key; the packet,
  the time and the load are handed in.

  Key definitions include:
    * `Repeater.Policy`
    * `Repeater.Policy.shouldForward`
    * `Repeater.Policy.setMaxHops`

  Key facts include:
    * `Repeater.Policy.shouldForward_config`
    * `Repeater.Policy.shouldForward_forwarded`
    * `Repeater.Policy.shouldForward_stats_ne`
-/

namespace MeshCore.Repeater

structure Config where
  enabled : Bool := true
  maxHops : UInt8 := 12
  floodPerMinute : UInt32 := 30
  dutyCeilingPermille : UInt32 := 80
  blocked : List UInt8 := []
deriving DecidableEq, Repr

/- Every refusal is counted apart from the others. -/
structure Stats where
  forwarded : UInt32 := 0
  hopLimit : UInt32 := 0
  blocked : UInt32 := 0
  rateLimited : UInt32 := 0
  budget : UInt32 := 0
deriving DecidableEq, Repr

structure Bucket where
  windowStart : Millis := 0
  count : UInt32 := 0
deriving DecidableEq, Repr

structure Policy where
  config : Config
  stats : Stats := {}
  buckets : List Bucket :=
    List.replicate repeaterSourceBuckets {}
deriving DecidableEq, Repr

namespace Policy

/- Clamped to what the format allows, never refused. -/
def setMaxHops (policy : Policy) (hops : UInt8) : Policy :=
  { policy with
    config :=
      { policy.config with
        maxHops :=
          if hops < 1 then 1
          else if maxHopCount < hops.toNat then
            UInt8.ofNat maxHopCount
          else hops } }

def setEnabled (policy : Policy) (on : Bool) : Policy :=
  { policy with
    config := { policy.config with enabled := on } }

def clearStats (policy : Policy) : Policy :=
  { policy with stats := {} }

/- A new policy: the hop limit goes through its setter. -/
def create (config : Config) : Policy :=
  setMaxHops { config := config } config.maxHops

/- Which neighbour handed us the packet. -/
def bucketOf (p : Packet) : Nat :=
  if p.pathSize = 0 then repeaterDirectBucket
  else (p.path.getD (p.pathSize - 1) 0).toNat

def isBlocked (policy : Policy) (p : Packet) : Bool :=
  p.path.any policy.config.blocked.contains

/- A counter that starts again with every window. -/
def withinRate
    (policy : Policy)
    (bucket : Nat)
    (now : Millis) :
    Bool × Policy :=
  if policy.config.floodPerMinute = 0 then (true, policy)
  else
    let slot := policy.buckets.getD bucket {}
    let slot :=
      if now < slot.windowStart ∨
          repeaterRateWindowMs ≤ now - slot.windowStart then
        { windowStart := now, count := 0 }
      else slot
    if policy.config.floodPerMinute ≤ slot.count then
      (false,
        { policy with
          buckets := policy.buckets.set bucket slot })
    else
      (true,
        { policy with
          buckets :=
            policy.buckets.set bucket
              { slot with count := slot.count + 1 } })

def shouldForward
    (policy : Policy)
    (p : Packet)
    (now : Millis)
    (usedPermille : UInt32) :
    Bool × Policy :=
  let stats := policy.stats
  if ¬ policy.config.enabled then (false, policy)
  else if policy.config.maxHops ≤ p.hopCount then
    (false,
      { policy with
        stats :=
          { stats with hopLimit := stats.hopLimit + 1 } })
  else if policy.isBlocked p then
    (false,
      { policy with
        stats := { stats with blocked := stats.blocked + 1 } })
  else if policy.config.dutyCeilingPermille ≠ 0 ∧
      policy.config.dutyCeilingPermille ≤ usedPermille then
    (false,
      { policy with
        stats := { stats with budget := stats.budget + 1 } })
  else
    let (within, policy) :=
      if p.routeType.isFlood then
        policy.withinRate (bucketOf p) now
      else (true, policy)
    if ¬ within then
      (false,
        { policy with
          stats :=
            { stats with
              rateLimited := stats.rateLimited + 1 } })
    else
      (true,
        { policy with
          stats :=
            { stats with
              forwarded := stats.forwarded + 1 } })

/- Transit counts, and keeps to its settings. -/
theorem withinRate_config
    (policy : Policy)
    (bucket : Nat)
    (now : Millis) :
    (policy.withinRate bucket now).2.config =
      policy.config := by
  unfold withinRate
  simp only
  split_ifs <;> rfl

theorem shouldForward_config
    (policy : Policy)
    (p : Packet)
    (now : Millis)
    (usedPermille : UInt32) :
    (policy.shouldForward p now usedPermille).2.config =
      policy.config := by
  have hWithin :
      (if p.routeType.isFlood then
        policy.withinRate (bucketOf p) now
      else (true, policy)).2.config =
        policy.config := by
    split
    · exact policy.withinRate_config _ now
    · rfl
  unfold shouldForward
  simp only
  generalize (if p.routeType.isFlood then
      policy.withinRate (bucketOf p) now
    else (true, policy)) = within at hWithin ⊢
  split_ifs <;> first | rfl | exact hWithin

/- Switched off, transit refuses and counts nothing. -/
theorem shouldForward_off
    {policy : Policy}
    (hOff : policy.config.enabled = false)
    (p : Packet)
    (now : Millis)
    (usedPermille : UInt32) :
    policy.shouldForward p now usedPermille =
      (false, policy) := by
  unfold shouldForward
  simp [hOff]

/- One more is forwarded exactly where it agrees. -/
theorem shouldForward_forwarded
    (policy : Policy)
    (p : Packet)
    (now : Millis)
    (usedPermille : UInt32) :
    (policy.shouldForward p now usedPermille).2.stats.forwarded =
      if (policy.shouldForward p now usedPermille).1 then
        policy.stats.forwarded + 1
      else policy.stats.forwarded := by
  unfold shouldForward
  simp only
  generalize (if p.routeType.isFlood then
      policy.withinRate (bucketOf p) now
    else (true, policy)) = within
  split_ifs <;> simp_all

/- A counter that is counted up is another one. -/
theorem counter_moves (n : UInt32) : n + 1 ≠ n := by
  intro hSame
  have hNat := congrArg UInt32.toNat hSame
  rw [UInt32.toNat_add, UInt32.toNat_one] at hNat
  omega

/- Switched on, it counts every packet it is asked about. -/
theorem shouldForward_stats_ne
    {policy : Policy}
    (hOn : policy.config.enabled = true)
    (p : Packet)
    (now : Millis)
    (usedPermille : UInt32) :
    (policy.shouldForward p now usedPermille).2.stats ≠
      policy.stats := by
  unfold shouldForward
  simp only [hOn, not_true_eq_false, if_false]
  generalize (if p.routeType.isFlood then
      policy.withinRate (bucketOf p) now
    else (true, policy)) = within
  intro hSame
  split_ifs at hSame
  · exact counter_moves _ (congrArg Stats.hopLimit hSame)
  · exact counter_moves _ (congrArg Stats.blocked hSame)
  · exact counter_moves _ (congrArg Stats.budget hSame)
  · exact counter_moves _ (congrArg Stats.forwarded hSame)
  · exact counter_moves _ (congrArg Stats.rateLimited hSame)

end Policy

end MeshCore.Repeater

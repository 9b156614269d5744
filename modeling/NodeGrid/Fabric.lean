import NodeGrid.Channel
import NodeGrid.Total

/-!
# Fabrics

A fabric is what the parts of a network share: its channels, and the line of
tasks that have been woken and not yet resumed.  The operations of a fabric are
those of its channels; in addition they let woken tasks join the line in the
order in which they are woken.

The *load* of a fabric is the number of tasks that are ready or waiting.  Ending
an operation never raises it, and a send raises it by at most the sender itself.
-/

namespace NodeGrid

/-- The channels of a network and the tasks that are ready to be resumed. -/
structure Fabric (τ : Type) (n : Nat) where
  channels : Vector (Channel τ) n
  /-- The woken tasks, first woken first. -/
  ready : List τ
deriving DecidableEq

namespace Fabric

variable {τ : Type} {n : Nat}

/-- Unused channels of the given capacities. -/
def ofCapacities (capacities : Vector Nat n) : Fabric τ n where
  channels := capacities.map .ofCapacity
  ready := []

/-- The channel with the given number. -/
def channel (fabric : Fabric τ n) (k : Fin n) : Channel τ :=
  fabric.channels[k]

/-- Replaces a channel, and lets the task that this woke join the line. -/
def update (fabric : Fabric τ n) (k : Fin n) (woken : Option τ) (channel : Channel τ) :
    Fabric τ n where
  channels := fabric.channels.set k channel
  ready := fabric.ready ++ woken.toList

/-- Replaces the line of ready tasks. -/
def withReady (fabric : Fabric τ n) (ready : List τ) : Fabric τ n :=
  { fabric with ready }

/-- A task sends on a channel; a receiver that was waiting there becomes ready. -/
def send (fabric : Fabric τ n) (k : Fin n) (value : Int64) (task : τ) :
    SendStatus × Fabric τ n :=
  let (status, woken, channel) := (fabric.channel k).send value task
  (status, fabric.update k woken channel)

/-- Ends a send whose task has been resumed, which hands over the value. -/
def finishSend (fabric : Fabric τ n) (k : Fin n) (value : Int64) : Fabric τ n :=
  let (woken, channel) := (fabric.channel k).finishSend value
  fabric.update k woken channel

/-- A task receives from a channel; a sender that was waiting there becomes ready. -/
def receive (fabric : Fabric τ n) (k : Fin n) (task : τ) :
    Except Fault (ReceiveStatus × Fabric τ n) := do
  let (status, woken, channel) ← (fabric.channel k).receive task
  return (status, fabric.update k woken channel)

/-- Ends a receive whose task has been resumed, which takes the value. -/
def finishReceive (fabric : Fabric τ n) (k : Fin n) : Except Fault (Int64 × Fabric τ n) := do
  let (value, channel) ← (fabric.channel k).finishReceive
  return (value, fabric.update k none channel)

/-- Takes a send back; `none` when its task has been woken already. -/
def cancelSend [DecidableEq τ] (fabric : Fabric τ n) (k : Fin n) (task : τ) :
    Option (Fabric τ n) :=
  ((fabric.channel k).cancelSend task).map (fabric.update k none)

/-- Takes a receive back; `none` when its task has been woken already. -/
def cancelReceive [DecidableEq τ] (fabric : Fabric τ n) (k : Fin n) (task : τ) :
    Option (Fabric τ n) :=
  ((fabric.channel k).cancelReceive task).map (fabric.update k none)

/-! ## The load of a fabric -/

/-- The number of tasks that are ready or waiting. -/
def load (fabric : Fabric τ n) : Nat :=
  fabric.ready.length + total Channel.waiting fabric.channels.toList

theorem load_update (fabric : Fabric τ n) (k : Fin n) (woken : Option τ) (channel : Channel τ) :
    (fabric.update k woken channel).load + (fabric.channel k).waiting =
      fabric.load + woken.toList.length + channel.waiting := by
  have hk : k.val < fabric.channels.toList.length := by simp
  have hset := total_set Channel.waiting hk channel
  simp only [load, update, List.length_append, Vector.toList_set, Fabric.channel,
    Fin.getElem_fin, Vector.getElem_toList] at hset ⊢
  omega

/-- Taking a task out of the line lowers the load by one. -/
theorem load_withReady {fabric : Fabric τ n} {task : τ} {ready : List τ}
    (hready : fabric.ready = task :: ready) : (fabric.withReady ready).load + 1 = fabric.load := by
  simp only [load, withReady, hready, List.length_cons]
  omega

theorem load_send_le (fabric : Fabric τ n) (k : Fin n) (value : Int64) (task : τ) :
    (fabric.send k value task).2.load ≤
      fabric.load + if (fabric.send k value task).1 = .blocked then 1 else 0 := by
  have hchannel := (fabric.channel k).waiting_send_le value task
  rcases hsend : (fabric.channel k).send value task with ⟨status, woken, channel⟩
  have hupdate := fabric.load_update k woken channel
  simp only [hsend] at hchannel
  simp only [send, hsend]
  omega

theorem load_finishSend (fabric : Fabric τ n) (k : Fin n) (value : Int64) :
    (fabric.finishSend k value).load = fabric.load := by
  have hchannel := (fabric.channel k).waiting_finishSend value
  have hupdate := fabric.load_update k ((fabric.channel k).finishSend value).1
    ((fabric.channel k).finishSend value).2
  simp only [finishSend]
  omega

theorem load_finishReceive {fabric rest : Fabric τ n} {k : Fin n} {value : Int64}
    (hfinish : fabric.finishReceive k = .ok (value, rest)) : rest.load = fabric.load := by
  unfold finishReceive at hfinish
  cases htake : (fabric.channel k).finishReceive with
  | error broken => simp [htake, bind, Except.bind] at hfinish
  | ok taken =>
    obtain ⟨taken, channel⟩ := taken
    simp only [htake, bind, Except.bind, pure, Except.pure, Except.ok.injEq,
      Prod.mk.injEq] at hfinish
    obtain ⟨_, rfl⟩ := hfinish
    have hchannel := Channel.waiting_finishReceive htake
    have hupdate := fabric.load_update k none channel
    simp only [Option.toList_none, List.length_nil] at hupdate
    omega

end Fabric

end NodeGrid

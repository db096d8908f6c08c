import SnesSound.Index

/-!
# Communication ports

The host and the CPU talk through four ports. Each port has two latches, one for either direction: what one side
writes is what the other side reads, and neither can read back what it wrote itself.

Main statements: what one side wrote is what the other one reads (`cpuRead_hostWrite_self`, `hostRead_cpuWrite_self`),
and never what it reads itself (`cpuRead_cpuWrite`, `hostRead_hostWrite`).
-/

namespace SnesSound

/-- A request for a port that does not exist. -/
structure IllegalPort where
  number : Nat
  deriving DecidableEq, Repr

/-- The text of the complaint about a port that does not exist. -/
def IllegalPort.message (e : IllegalPort) : String := s!"Illegal port number {e.number}"

/-- The four ports. -/
structure Ports where
  /-- Latches that the host writes and the CPU reads. -/
  toCpu : Vector UInt8 4 := Vector.replicate 4 0
  /-- Latches that the CPU writes and the host reads. -/
  toHost : Vector UInt8 4 := Vector.replicate 4 0
  deriving DecidableEq

namespace Ports

instance : Inhabited Ports := ⟨{}⟩

/-- The port with a number, if there is one. -/
def select (number : Nat) : Except IllegalPort (Fin 4) :=
  if h : number < 4 then .ok ⟨number, h⟩ else .error ⟨number⟩

/-- What the CPU reads from a port. -/
def cpuRead (p : Ports) (port : Fin 4) : UInt8 := p.toCpu.get port

/-- The CPU writes to a port. -/
def cpuWrite (p : Ports) (port : Fin 4) (value : UInt8) : Ports :=
  { p with toHost := p.toHost.set port value port.isLt }

/-- What the host reads from a port. -/
def hostRead (p : Ports) (port : Fin 4) : UInt8 := p.toHost.get port

/-- The host writes to a port. -/
def hostWrite (p : Ports) (port : Fin 4) (value : UInt8) : Ports :=
  { p with toCpu := p.toCpu.set port value port.isLt }

/-- Zeroes the latch that the CPU reads. -/
def clear (p : Ports) (port : Fin 4) : Ports := p.hostWrite port 0

/-! ## Reads after writes -/

@[simp] theorem cpuRead_hostWrite_self (p : Ports) (port : Fin 4) (value : UInt8) :
    (p.hostWrite port value).cpuRead port = value := by
  simp [cpuRead, hostWrite, get_eq_getElem]

theorem cpuRead_hostWrite_of_ne (p : Ports) {port other : Fin 4} (value : UInt8) (h : port ≠ other) :
    (p.hostWrite port value).cpuRead other = p.cpuRead other := by
  have hne : port.val ≠ other.val := fun e => h (Fin.ext e)
  simp [cpuRead, hostWrite, get_eq_getElem, hne]

@[simp] theorem hostRead_cpuWrite_self (p : Ports) (port : Fin 4) (value : UInt8) :
    (p.cpuWrite port value).hostRead port = value := by
  simp [hostRead, cpuWrite, get_eq_getElem]

theorem hostRead_cpuWrite_of_ne (p : Ports) {port other : Fin 4} (value : UInt8) (h : port ≠ other) :
    (p.cpuWrite port value).hostRead other = p.hostRead other := by
  have hne : port.val ≠ other.val := fun e => h (Fin.ext e)
  simp [hostRead, cpuWrite, get_eq_getElem, hne]

/-- The CPU cannot read back what it wrote. -/
@[simp] theorem cpuRead_cpuWrite (p : Ports) (port other : Fin 4) (value : UInt8) :
    (p.cpuWrite port value).cpuRead other = p.cpuRead other := rfl

/-- The host cannot read back what it wrote. -/
@[simp] theorem hostRead_hostWrite (p : Ports) (port other : Fin 4) (value : UInt8) :
    (p.hostWrite port value).hostRead other = p.hostRead other := rfl

end Ports

end SnesSound

import PuaCpu.Pipeline.Aliasing
import PuaCpu.Pipeline.Attribution
import PuaCpu.Pipeline.Causes
import PuaCpu.Pipeline.EmptySlots
import PuaCpu.Pipeline.Interrupts
import PuaCpu.Pipeline.Order
import PuaCpu.Pipeline.Noninterference
import PuaCpu.Privilege.WriteLaw
import PuaCpu.Reference.Agreement
import PuaCpu.Sequential.Refinement
import PuaCpu.Agreement.Arith
import PuaCpu.Agreement.Transfer
import PuaCpu.Reference.Harness
import PuaCpu.Reference.Confined
import PuaCpu.Agreement.Cosim
import PuaCpu.Agreement.Csr
import PuaCpu.Agreement.Legality
import PuaCpu.Agreement.Memory
import PuaCpu.Harness.Timeout
import PuaCpu.Reference.Vector
import PuaCpu.Agreement.ReadOnly
import PuaCpu.Reference.AmoWord
import PuaCpu.Reference.Reservation
import PuaCpu.Reference.Select
import PuaCpu.Reference.Flat
import PuaCpu.Reference.Virtual
import PuaCpu.Reference.Routing
import PuaCpu.Reference.RegisterMap
import PuaCpu.Reference.Load
import PuaCpu.Reference.Retired
import PuaCpu.Lockstep.Simulator
import PuaCpu.Sequential.Trapping

import KernelMaps.Error

/-!
The numbers of descriptors. One that was given back is given out again, the lowest first, and the
memory behind a number stays the memory it had when it was given out for the first time. So a ring
shows the records of the CPU that had its number first. That is its own CPU as long as no CPU is
opened twice.
-/

namespace KernelMaps

structure Numbered where
  first : Cpu
  holder : Option Cpu
  deriving DecidableEq

def Numbered.fresh (cpu : Cpu) : Numbered := ⟨cpu, some cpu⟩

def giveBack (cpu : Cpu) (numbers : List Numbered) : List Numbered :=
  numbers.map fun number =>
    if number.holder = some cpu then { number with holder := none } else number

/-- Gives a CPU the lowest free number, or a new one. The number it had before is free only behind
that. -/
def giveOut (cpu : Cpu) : List Numbered → List Numbered
  | [] => [.fresh cpu]
  | number :: rest =>
      if number.holder = none then { number with holder := some cpu } :: giveBack cpu rest
      else if number.holder = some cpu then { number with holder := none } :: giveOut cpu rest
      else number :: giveOut cpu rest

/-- The CPU whose records the ring of a CPU shows, when these were opened one after the other. -/
def shownCpu (opened : List Cpu) (cpu : Cpu) : Cpu :=
  let numbers := opened.foldl (fun numbers next => giveOut next numbers) []
  ((numbers.find? fun number => number.holder = some cpu).map Numbered.first).getD cpu

end KernelMaps

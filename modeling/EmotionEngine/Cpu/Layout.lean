/-!
The byte layout of the register file in host memory. Compiled code reaches every guest value relative
to one base address; these are the offsets it uses. General registers are 16 bytes each, and the area
after the control registers holds one 8-byte spill slot for each value that compiled code can keep in
a host register.
-/

namespace EmotionEngine.Layout

def gprBase : Nat := 0

def hi : Nat := 512

def lo : Nat := 520

def pc : Nat := 528

/-- The floating point control and status register. -/
def fcr31 : Nat := 532

/-- The first floating point register. -/
def fprBase : Nat := 536

/-- The first system control register. -/
def cop0Base : Nat := 664

def spillBase : Nat := 792

/-- The code of the exception that ended a block. -/
def excCode : Nat := 1064

/-- Whether the instruction that ended a block sat in a delay slot. -/
def excDelaySlot : Nat := 1068

/-- Whether a helper recorded an exception. -/
def faultPending : Nat := 1072

/-- The low half of general register `n`. -/
def gpr (n : Nat) : Nat := gprBase + 16 * n

def fpr (n : Nat) : Nat := fprBase + 4 * n

def cop0 (n : Nat) : Nat := cop0Base + 4 * n

/-- Spill slot `n`. -/
def spill (n : Nat) : Nat := spillBase + 8 * n

end EmotionEngine.Layout

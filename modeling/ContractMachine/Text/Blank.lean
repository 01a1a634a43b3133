/-!
# Blanks

The characters that may stand between the parts of a fixture: the space, the tab and the two ends
of a line.
-/

namespace ContractMachine.Text

def isBlank (c : Char) : Bool := c.toNat ∈ [0x20, 0x0a, 0x0d, 0x09]

end ContractMachine.Text

import ContractMachine.Digest.Keccak
import ContractMachine.Encoding.Rlp

/-!
# Addresses of created contracts
-/

namespace ContractMachine.Address

/-- The address of the contract that `creator` creates at `nonce`: the low bits of the digest of
the pair. -/
def ofCreation (creator : Address) (nonce : UInt64) : Address :=
  (Keccak.digest (Rlp.list [Rlp.string creator.toBytes, Rlp.number nonce.toNat])).toAddress

end ContractMachine.Address

import Mathlib.Data.List.Basic

/-!
# Bytes

The source keeps keys, hosts and records in `std::string` and everything that crosses a stream in
`std::vector<uint8_t>`. Both are byte sequences with no encoding attached, and both are `Bytes`
here.
-/

namespace Holesail

abbrev Bytes := List UInt8

def ascii (s : String) : Bytes := s.toList.map fun c ↦ c.toNat.toUInt8

end Holesail

/-
The limit of sizes: offsets, indices and depths are below 2^64.
-/
namespace FormDesk

/-- The first number that is too large for a size, 2^64. -/
def sizeLimit : Nat := 18446744073709551616

end FormDesk

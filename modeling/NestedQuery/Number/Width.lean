/-!
# Whole numbers of 64 bits

The bounds that whole numbers of documents, pages and counts keep, and the
number of doubles that share an exponent.
-/

namespace NestedQuery

/-- One more than the greatest whole number of 64 bits with a sign. -/
abbrev signedBound : Nat := 9223372036854775808

/-- One more than the greatest whole number of 64 bits without a sign. -/
abbrev unsignedBound : Nat := 18446744073709551616

/-- How many doubles of one sign share an exponent: two to the power of 52. -/
abbrev perExponent : Nat := 4503599627370496

end NestedQuery

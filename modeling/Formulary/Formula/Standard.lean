import Formulary.Formula.Table

/-!
# The standard formula table

## Main definitions

* `FormulaTable.standard` is the table in use when no other is given.
-/

namespace Formulary.FormulaTable

/-- The constants of the standard table. -/
def standardConstants : List (String × String) :=
  [("Pi", "PI()"), ("ExponentialE", "EXP(1)"), ("CatalanConstant", "0.915965594177219"),
    ("GoldenRatio", "((1+SQRT(5))/2)"), ("EulerGamma", "0.577215664901533"),
    ("ImaginaryUnit", "COMPLEX(0,1)"), ("PositiveInfinity", "1E+307"),
    ("NegativeInfinity", "-1E+307")]

/-- The operators of the standard table. Two factors side by side are a product, but
inside of a subscript they are one index. -/
def standardOperators : List Mapping :=
  [.operator "Add" "+" none, .operator "Subtract" "-" none,
    .operator "Multiply" "*" none, .operator "Divide" "/" none,
    .operator "Power" "^" none, .operator "InvisibleOperator" "*" (some "")]

/-- The functions of the standard table that are called by name. -/
def standardCalls : List (String × String) :=
  [("Sqrt", "SQRT"), ("Factorial", "FACT"),
    ("Factorial2", "FACTDOUBLE"), ("Gamma", "GAMMA"), ("Sin", "SIN"), ("Cos", "COS"),
    ("Tan", "TAN"), ("Csc", "CSC"), ("Sec", "SEC"), ("Cot", "COT"), ("Arcsin", "ASIN"),
    ("Arccos", "ACOS"), ("Arctan", "ATAN"), ("Acsc", "ACSC"), ("Asec", "ASEC"),
    ("Acot", "ACOT"), ("Sinh", "SINH"), ("Cosh", "COSH"),
    ("Tanh", "TANH"), ("Csch", "CSCH"), ("Sech", "SECH"), ("Coth", "COTH"),
    ("Arsinh", "ASINH"), ("Arcosh", "ACOSH"), ("Artanh", "ATANH"), ("Acsch", "ACSCH"),
    ("Asech", "ASECH"), ("Arcoth", "ACOTH"), ("Exp", "EXP"), ("Ln", "LN"),
    ("Log", "LOG"), ("Abs", "ABS"), ("LCM", "LCM"), ("Complex", "COMPLEX"),
    ("Real", "IMREAL"), ("Imaginary", "IMAGINARY"), ("Conjugate", "IMCONJUGATE"),
    ("Arg", "IMARGUMENT"), ("Magnitude", "IMABS"), ("Norm", "IMABS"),
    ("Argument", "IMARGUMENT"), ("Median", "MEDIAN"), ("Mean", "AVERAGE"),
    ("Min", "MIN"), ("Max", "MAX"), ("Mode", "MODE.SNGL"),
    ("PopulationStandardDeviation", "STDEV.P"), ("StandardDeviation", "STDEV.S"),
    ("Variance", "VAR.P")]

/-- The functions of the standard table that are written through a template, with the
numbers of the arguments that are subscripts. -/
def standardTemplates : List (String × String × List Int) :=
  [("Negate", "(-\x7b0\x7d)", []), ("Parentheses", "(\x7b0\x7d)", []),
    ("Subscript", "\x7b0\x7d_\x7b1\x7d", [1]), ("Square", "(\x7b0\x7d^2)", []),
    ("Root", "(\x7b0\x7d^(1/\x7b1\x7d))", []), ("Lb", "LOG(\x7b0\x7d,2)", []),
    ("Lg", "LOG(\x7b0\x7d)", []), ("LogOnePlus", "LN(\x7b0\x7d + 1)", []),
    ("Ceil", "CEILING.MATH(\x7b0\x7d,1)", []), ("Floor", "FLOOR(\x7b0\x7d,1)", []),
    ("Rational", "(\x7b0\x7d/\x7b1\x7d)", []), ("Mod", "MOD(\x7b0\x7d, \x7b1\x7d)", [])]

/-- All mappings of the standard table. -/
def standardMappings : List Mapping :=
  standardOperators ++ standardCalls.map (fun c => .call c.1 c.2) ++
    standardTemplates.map fun t => .template t.1 t.2.1 t.2.2

/-- The standard table. -/
def standard : FormulaTable where
  constants := standardConstants
  mappings := standardMappings.map fun m => (m.tag, m)

end Formulary.FormulaTable

import Formulary.Command.Table

/-!
# The standard command table

Greek letters, accents, fonts, the constants of analysis and the usual commands with
arguments.

## Main definitions

* `CommandTable.standard` is the table in use when no other is given.
-/

namespace Formulary.CommandTable

/-- The lower-case Greek letters. -/
def greekLower : List String :=
  ["alpha", "beta", "gamma", "delta", "epsilon", "zeta", "eta", "theta",
    "iota", "kappa", "lambda", "mu", "nu", "xi", "pi", "rho", "sigma", "tau", "upsilon",
    "phi", "chi", "psi", "omega"]

/-- The Greek capitals that differ from the Latin ones. -/
def greekUpper : List String :=
  ["Gamma", "Delta", "Theta", "Lambda", "Xi", "Pi", "Sigma", "Upsilon",
    "Phi", "Psi", "Omega"]

/-- The variant forms of Greek letters. -/
def greekVariants : List String :=
  ["varepsilon", "vartheta", "varkappa", "varpi", "varrho", "varsigma", "varphi"]

/-- The standard table. -/
def standard : CommandTable where
  letters := greekLower ++ greekUpper ++ greekVariants
  accents :=
    ["overline", "bar", "hat", "widehat", "tilde", "widetilde", "vec", "overrightarrow",
      "overleftarrow", "overleftrightarrow", "dot", "ddot", "dddot",
      "ddddot", "acute", "grave", "breve", "check", "mathring", "underline", "underbar"]
  fonts :=
    ["mathbf", "boldsymbol", "bm", "pmb", "mathcal", "mathscr", "mathbb",
      "mathfrak", "mathrm", "mathsf", "mathtt", "mathit"]
  constants := ["e", "i", "\\pi"]
  textual :=
    ["text", "textrm", "textit", "textbf", "textsf", "texttt", "mbox",
      "operatorname", "hspace", "vspace"]
  signatures :=
    [("frac", "m m"), ("dfrac", "m m"), ("tfrac", "m m"),
      ("cfrac", "m m"), ("binom", "m m"), ("dbinom", "m m"), ("tbinom", "m m"),
      ("sqrt", "o m"), ("overset", "m m"), ("underset", "m m"), ("stackrel", "m m"),
      ("overbrace", "m"), ("underbrace", "m"), ("boxed", "m"), ("cancel", "m"),
      ("color", "m"), ("left", "d"), ("right", "d"), ("middle", "d"), ("bigl", "d"),
      ("bigr", "d"), ("Bigl", "d"), ("Bigr", "d"), ("biggl", "d"), ("biggr", "d"),
      ("Biggl", "d"), ("Biggr", "d")]

end Formulary.CommandTable

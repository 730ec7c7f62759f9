/-!
# Ends of lines

Text files end their lines with a line feed, a carriage return, or both. The library
reads every end as a line feed.

## Main definitions

* `Text.withLineFeeds` replaces all ends of lines by line feeds.
-/

namespace Formulary.Text

/-- The characters of a text in which every line ends with a line feed. -/
def lineFeedChars : List Char → List Char
  | [] => []
  | '\r' :: '\n' :: rest => '\n' :: lineFeedChars rest
  | '\r' :: rest => '\n' :: lineFeedChars rest
  | c :: rest => c :: lineFeedChars rest

/-- The text in which every line ends with a line feed. -/
def withLineFeeds (s : String) : String :=
  String.ofList (lineFeedChars s.toList)

end Formulary.Text

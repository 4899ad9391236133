/-!
# Searching a text

Where a mark occurs in a text, and the text with something else in its place.
-/

namespace LockTrace.Text

/-- What stands before and after the first place at which a mark occurs. -/
def cutAt? (mark : List Char) : List Char → Option (List Char × List Char)
  | [] => none
  | c :: cs =>
    if mark.isPrefixOf (c :: cs) then some ([], (c :: cs).drop mark.length)
    else (cutAt? mark cs).map fun (before, after) => (c :: before, after)

/-- Go on with a replacement. So many characters still belong to the last place at which the
    mark occurred. -/
def replaceFrom (mark text : List Char) : Nat → List Char → List Char
  | _, [] => []
  | n + 1, _ :: cs => replaceFrom mark text n cs
  | 0, c :: cs =>
    if mark.isPrefixOf (c :: cs) then text ++ replaceFrom mark text (mark.length - 1) cs
    else c :: replaceFrom mark text 0 cs

/-- Put a text into every place at which a mark occurs. Places that overlap an earlier one do
    not count, and what is put in is not searched. -/
def replace (mark text cs : List Char) : List Char := replaceFrom mark text 0 cs

end LockTrace.Text

/-!
# Line ends

A line of a text file ends in a line feed, a carriage return, or both in this order.  Reading turns
each of them into one line feed.
-/

namespace Rebuild.Text

def unifyNewlines : List Char → List Char
  | [] => []
  | '\r' :: '\n' :: rest => '\n' :: unifyNewlines rest
  | c :: rest => (if c = '\r' then '\n' else c) :: unifyNewlines rest

end Rebuild.Text

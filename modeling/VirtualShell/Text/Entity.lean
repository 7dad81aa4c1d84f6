/-!
# Escaped operators

Scripts that passed through a markup generator carry `&lt;`, `&gt;` and `&amp;` in place of the
operators. They are put back outside of quotes; inside quotes the text may be meant, and stays.
-/

namespace VirtualShell.Text

/-- **Putting the operators back.** The first argument is the quote that is open, if one is. A
backslash protects the character after it, except inside single quotes. -/
def unescapeEntities : Option Char → List Char → List Char
  | _, [] => []
  | none, '\\' :: c :: rest => '\\' :: c :: unescapeEntities none rest
  | none, '&' :: 'l' :: 't' :: ';' :: rest => '<' :: unescapeEntities none rest
  | none, '&' :: 'g' :: 't' :: ';' :: rest => '>' :: unescapeEntities none rest
  | none, '&' :: 'a' :: 'm' :: 'p' :: ';' :: rest => '&' :: unescapeEntities none rest
  | none, c :: rest =>
    c :: unescapeEntities (if c == '\'' || c == '"' then some c else none) rest
  | some '"', '\\' :: c :: rest => '\\' :: c :: unescapeEntities (some '"') rest
  | some q, c :: rest => c :: unescapeEntities (if c == q then none else some q) rest

/-- A script with its operators put back. -/
def restoreOperators (script : String) : String :=
  String.ofList (unescapeEntities none script.toList)

end VirtualShell.Text

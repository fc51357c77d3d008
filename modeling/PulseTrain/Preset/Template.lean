import PulseTrain.Preset.Value

/-! # Templates

    A template is a text with placeholders, names in braces. The arguments are put in one after
    another, each in the place of its placeholder, wherever it stands by then.

    * `replaceAll` replaces a text wherever it occurs;
    * `fillIn` puts the arguments into a template.
-/

namespace PulseTrain.Preset

/-- Replaces every occurrence of `pattern`, searching from the left and going on after the
    occurrence. An empty pattern occurs nowhere. -/
def replaceAll (pattern replacement : List Char) (s : List Char) : List Char :=
  match s with
  | [] => []
  | c :: rest =>
    if !pattern.isEmpty && pattern.isPrefixOf (c :: rest) then
      replacement ++ replaceAll pattern replacement (rest.drop (pattern.length - 1))
    else c :: replaceAll pattern replacement rest
termination_by s.length
decreasing_by
  · simp only [List.length_drop, List.length_cons]
    omega
  · simp

def placeholder (name : String) : List Char :=
  '{' :: (name.toList ++ ['}'])

/-- The template with each placeholder replaced by the text of its argument, argument by argument.
    -/
def fillIn (template : List Char) (arguments : Arguments) : List Char :=
  arguments.entries.foldl
    (fun text (name, value) => replaceAll (placeholder name) value.toChars text) template

end PulseTrain.Preset

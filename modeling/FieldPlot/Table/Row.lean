/-!
Writing a table: one line for each row. No field that is written here holds a comma, a quote or a
line break, so none needs quotes; a row whose line would be blank, such as a row without fields, is
written as one empty quoted field and so stays a row.
-/
namespace FieldPlot.Table

def writeRow (fields : List (List Char)) : List Char :=
  let line := [','].intercalate fields
  (if line = [] then ['"', '"'] else line) ++ ['\n']

def write (rows : List (List (List Char))) : List Char :=
  rows.flatMap writeRow

end FieldPlot.Table

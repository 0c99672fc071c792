import Sift.Operator.Basic

/-!
# Settings

How an endpoint is configured. Every setting has a default, and a setting that is not known is refused: a slip in a
security setting must not go unnoticed.
-/

namespace Sift

structure Settings where
  defaultPageSize : Value := .int 100
  maxPageSize : Value := .null
  defaultOrderBy : Value := .text "id"
  defaultOrderDir : Value := .text "ASC"
  allowOrdering : Value := .bool true
  allowOrderingOn : Value := .null
  blockOrderingOn : Value := .null
  allowFiltering : Value := .bool true
  allowFilteringOn : Value := .null
  blockFilteringOn : Value := .null
  forceFilter : Value := .null
  /-- Operators beside the usual ones. -/
  operators : Option (List Operator) := none
  fieldAliases : Value := .null
  idMapping : Value := .null
  relationIdMapping : Value := .null
  includes : Value := .null
  flattening : Value := .null
  metaShowFilters : Value := .bool false
  metaShowOrdering : Value := .bool false
  querystringPrefix : Value := .text ""

namespace Settings

def put (s : Settings) (name : String) (v : Value) : Except Fault Settings :=
  match name with
  | "default_page_size" => .ok { s with defaultPageSize := v }
  | "max_page_size" => .ok { s with maxPageSize := v }
  | "default_order_by" => .ok { s with defaultOrderBy := v }
  | "default_order_dir" => .ok { s with defaultOrderDir := v }
  | "allow_ordering" => .ok { s with allowOrdering := v }
  | "allow_ordering_on" => .ok { s with allowOrderingOn := v }
  | "block_ordering_on" => .ok { s with blockOrderingOn := v }
  | "allow_filtering" => .ok { s with allowFiltering := v }
  | "allow_filtering_on" => .ok { s with allowFilteringOn := v }
  | "block_filtering_on" => .ok { s with blockFilteringOn := v }
  | "force_filter" => .ok { s with forceFilter := v }
  | "field_aliases" => .ok { s with fieldAliases := v }
  | "id_mapping" => .ok { s with idMapping := v }
  | "relation_id_mapping" => .ok { s with relationIdMapping := v }
  | "includes" => .ok { s with includes := v }
  | "flattening" => .ok { s with flattening := v }
  | "meta_show_filters" => .ok { s with metaShowFilters := v }
  | "meta_show_ordering" => .ok { s with metaShowOrdering := v }
  | "querystring_prefix" => .ok { s with querystringPrefix := v }
  | _ => .error .wrongKind

def update (s : Settings) (row : Row) : Except Fault Settings :=
  row.foldlM (fun s (key, v) =>
    match key with
    | .text name => s.put name v
    | _ => .error .wrongKind) s

/-- All settings but the operators, by their names. -/
def toList (s : Settings) : List (String × Value) := [
  ("default_page_size", s.defaultPageSize),
  ("max_page_size", s.maxPageSize),
  ("default_order_by", s.defaultOrderBy),
  ("default_order_dir", s.defaultOrderDir),
  ("allow_ordering", s.allowOrdering),
  ("allow_ordering_on", s.allowOrderingOn),
  ("block_ordering_on", s.blockOrderingOn),
  ("allow_filtering", s.allowFiltering),
  ("allow_filtering_on", s.allowFilteringOn),
  ("block_filtering_on", s.blockFilteringOn),
  ("force_filter", s.forceFilter),
  ("field_aliases", s.fieldAliases),
  ("id_mapping", s.idMapping),
  ("relation_id_mapping", s.relationIdMapping),
  ("includes", s.includes),
  ("flattening", s.flattening),
  ("meta_show_filters", s.metaShowFilters),
  ("meta_show_ordering", s.metaShowOrdering),
  ("querystring_prefix", s.querystringPrefix)]

end Settings

end Sift

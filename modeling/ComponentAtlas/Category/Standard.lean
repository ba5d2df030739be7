import ComponentAtlas.Category.Table

/-!
# The standard category table

The categories of the component library, with the components known to belong to each, and rules
for the names of the others.
-/

namespace ComponentAtlas.CategoryTable

def standardEntries : List CategoryEntry := [
  ⟨"Buttons", some "Buttons",
    some "Clickable controls that trigger actions",
    ["MudButton", "MudIconButton", "MudFab", "MudToggleIconButton", "MudButtonGroup",
     "MudToggleGroup", "MudToggleItem"]⟩,
  ⟨"Form Inputs & Controls", some "Form Inputs & Controls",
    some "Text fields, selections, toggles, and form containers",
    ["MudTextField", "MudNumericField", "MudSelect", "MudSelectItem", "MudAutocomplete",
     "MudCheckBox", "MudRadio", "MudRadioGroup", "MudSwitch", "MudSlider", "MudRating",
     "MudForm", "MudFileUpload", "MudInput", "MudInputLabel", "MudField"]⟩,
  ⟨"Pickers", some "Pickers",
    some "Date, time, and color selection",
    ["MudDatePicker", "MudDateRangePicker", "MudTimePicker", "MudColorPicker"]⟩,
  ⟨"Navigation", some "Navigation",
    some "Menus, links, tabs, and app-level navigation",
    ["MudNavMenu", "MudNavLink", "MudNavGroup", "MudMenu", "MudMenuItem", "MudBreadcrumbs",
     "MudTabs", "MudTabPanel", "MudLink", "MudPagination", "MudAppBar", "MudDrawer",
     "MudStepper"]⟩,
  ⟨"Layout", some "Layout",
    some "Structural containers and spacing",
    ["MudContainer", "MudGrid", "MudItem", "MudStack", "MudPaper", "MudCard", "MudLayout",
     "MudMainContent", "MudSpacer", "MudDivider", "MudHidden", "MudBreakpointProvider",
     "MudSwipeArea"]⟩,
  ⟨"Data Display", some "Data Display",
    some "Tables, lists, trees, and visual indicators",
    ["MudTable", "MudDataGrid", "MudSimpleTable", "MudList", "MudListItem", "MudTreeView",
     "MudTreeViewItem", "MudAvatar", "MudBadge", "MudChip", "MudChipSet", "MudIcon", "MudText",
     "MudTimeline", "MudTimelineItem", "MudCarousel", "MudImage", "MudExpansionPanels",
     "MudExpansionPanel", "MudVirtualize"]⟩,
  ⟨"Feedback", some "Feedback",
    some "Alerts, dialogs, progress, and transient messages",
    ["MudAlert", "MudDialog", "MudMessageBox", "MudSnackbarProvider", "MudProgressCircular",
     "MudProgressLinear", "MudSkeleton", "MudTooltip", "MudOverlay", "MudPopover"]⟩,
  ⟨"Charts", some "Charts",
    some "Data visualisation",
    ["MudChart", "MudTimeSeriesChart"]⟩,
  ⟨"Utilities", some "Utilities",
    some "Providers and behavior helpers without visual output of their own",
    ["MudElement", "MudFocusTrap", "MudScrollToTop", "MudThemeProvider", "MudPopoverProvider",
     "MudDialogProvider", "MudHighlighter", "MudRTLProvider"]⟩]

def standardRules : List CategoryRule := [
  ⟨"Buttons",
    ["Button"],
    ["Fab"]⟩,
  ⟨"Pickers",
    ["Picker"],
    []⟩,
  ⟨"Charts",
    ["Chart"],
    []⟩,
  ⟨"Form Inputs & Controls",
    ["Field", "Select", "Input", "CheckBox", "Radio", "Switch", "Slider", "Autocomplete",
     "Form", "Upload", "Rating", "Mask"],
    []⟩,
  ⟨"Navigation",
    ["Nav", "Menu", "Breadcrumb", "Tab", "Link", "Pagination", "Drawer", "AppBar", "Stepper"],
    []⟩,
  ⟨"Feedback",
    ["Dialog", "Snackbar", "Alert", "Progress", "Skeleton", "Tooltip", "Overlay", "Popover",
     "Message"],
    []⟩,
  ⟨"Data Display",
    ["Table", "DataGrid", "List", "Tree", "Timeline", "Chip", "Avatar", "Badge", "Carousel",
     "Icon", "Text", "Image"],
    []⟩,
  ⟨"Layout",
    [],
    ["Container", "Paper", "Card", "Stack", "Layout", "Grid", "Item", "Panel", "Divider",
     "Spacer"]⟩,
  ⟨"Utilities",
    ["Provider", "Theme", "Focus", "Scroll"],
    []⟩]

/-- The table that is used where none is given. -/
def standard : CategoryTable where
  entries := standardEntries
  rules := standardRules
  infer := true

end ComponentAtlas.CategoryTable
